import Attos.Aml.NodeHeap
import Attos.Aml.ParseObject

/-!
# The discipline of the AML parser

What a parse function does to the name space when it returns (`Parses`): the current
scope is the one before the call, and the bindings are the old ones followed by one for
each registered node of the tree that is returned. The names stay distinct and the bound
nodes alive (`Sound`). When the tree is destroyed, the bindings are the old ones again
(`parse_discipline`).

The functions below `parse_term_obj` make no node with a registration. For the other
ones there is a lemma for each case of the grammar; the induction is on the fuel.
-/

namespace Attos.Aml

open Lib Outcome

namespace World

/-- The invariant of the name space and of the heap. -/
structure Sound (w : World) : Prop where
  /-- the links between containers are in order -/
  linked : w.Linked
  /-- the names are distinct -/
  distinct : w.ns.NamesDistinct
  /-- every bound node is alive -/
  alive {b : Binding} : b ∈ w.ns.bindings_ → w.kind b.n ≠ none
  /-- no node exists before it is made -/
  fresh {p : NodePtr} : w.made ≤ p → w.kind p = none

/-- What a parse function does when it returns trees that own some nodes and have
registered some of them. -/
structure Parses (w w' : World) (owners : List (NodePtr × Bool)) (registered : List NodePtr) :
    Prop where
  /-- the current scope is the same -/
  current : w'.ns.curNamespace_ = w.ns.curNamespace_
  /-- one binding for each registered node comes behind the old bindings -/
  bindings : ∃ bs, w'.ns.bindings_ = w.ns.bindings_ ++ bs ∧ bs.map Binding.n = registered
  /-- the invariant holds -/
  sound : w'.Sound
  /-- nodes may have been made -/
  made : w.made ≤ w'.made
  /-- the nodes of the trees are new -/
  created {o : NodePtr × Bool} : o ∈ owners → w.made ≤ o.1
  /-- they are alive -/
  kinds {o : NodePtr × Bool} : o ∈ owners → w'.kind o.1 = some o.2
  /-- they are different nodes -/
  nodup : (owners.map Prod.fst).Nodup
  /-- the old nodes are as they were -/
  kept {p : NodePtr} : p < w.made → w'.kind p = w.kind p

variable {w w' w₁ w₂ w₃ : World} {p q this : NodePtr} {n : NodeInfo} {cur : Name} {reg : ScopeRegistration}
  {os os₁ os₂ : List (NodePtr × Bool)} {rs rs₁ rs₂ : List NodePtr} {nodes : List Node}

theorem Sound.lt_made (h : w.Sound) (hp : w.kind p ≠ none) : p < w.made := by
  by_contra hle
  exact hp (h.fresh (not_lt.1 hle))

/-- The invariant does not depend on the current scope. -/
theorem Sound.enter (h : w.Sound) (cur : Name) :
    ({ w with ns := ⟨cur, w.ns.bindings_⟩ } : World).Sound :=
  ⟨⟨h.linked.lists, h.linked.containers, h.linked.head⟩, h.distinct, h.alive, h.fresh⟩

/-- Nothing is bound and nothing made. -/
theorem Sound.init (cur : Name) : (⟨⟨cur, []⟩, fun _ => none, 0⟩ : World).Sound where
  linked := ⟨⟨nofun, nofun, nofun⟩, nofun, nofun⟩
  distinct := List.nodup_nil
  alive := nofun
  fresh _ := rfl

namespace Parses

theorem refl (h : w.Sound) : Parses w w [] [] :=
  ⟨rfl, ⟨[], by simp, rfl⟩, h, le_rfl, by simp, by simp, by simp, fun _ => rfl⟩

/-- One call after another -/
theorem trans (h₁ : Parses w w₁ os₁ rs₁) (h₂ : Parses w₁ w₂ os₂ rs₂) :
    Parses w w₂ (os₁ ++ os₂) (rs₁ ++ rs₂) where
  current := h₂.current.trans h₁.current
  bindings := by
    obtain ⟨bs₁, hbs₁, hmap₁⟩ := h₁.bindings
    obtain ⟨bs₂, hbs₂, hmap₂⟩ := h₂.bindings
    exact ⟨bs₁ ++ bs₂, by rw [hbs₂, hbs₁, List.append_assoc], by rw [List.map_append, hmap₁, hmap₂]⟩
  sound := h₂.sound
  made := h₁.made.trans h₂.made
  created ho := by
    rcases List.mem_append.1 ho with ho | ho
    · exact h₁.created ho
    · exact h₁.made.trans (h₂.created ho)
  kinds {o} ho := by
    rcases List.mem_append.1 ho with ho | ho
    · rw [h₂.kept (h₁.sound.lt_made (by rw [h₁.kinds ho]; simp))]
      exact h₁.kinds ho
    · exact h₂.kinds ho
  nodup := by
    rw [List.map_append, List.nodup_append]
    refine ⟨h₁.nodup, h₂.nodup, fun p hp q hq => ?_⟩
    obtain ⟨o₁, ho₁, rfl⟩ := List.mem_map.1 hp
    obtain ⟨o₂, ho₂, rfl⟩ := List.mem_map.1 hq
    have hlt := h₁.sound.lt_made (p := o₁.1) (by rw [h₁.kinds ho₁]; simp)
    exact (hlt.trans_le (h₂.created ho₂)).ne
  kept hp := (h₂.kept (hp.trans_le h₁.made)).trans (h₁.kept hp)

/-- The bindings before are those of other nodes than the tree's. -/
theorem apart (h : Parses w w' os rs) (hw : w.Sound) {b : Binding} (hb : b ∈ w.ns.bindings_) :
    b.n ∉ os.map Prod.fst := by
  intro hmem
  obtain ⟨o, ho, hbn⟩ := List.mem_map.1 hmem
  have hle := h.created ho
  rw [hbn] at hle
  exact absurd (hw.lt_made (hw.alive hb)) (not_lt.2 hle)

/-- **The tree can be destroyed**, and then the call has changed nothing. -/
theorem destroyAll (h : Parses w w' (ownersAll nodes) (registeredAll nodes)) (hw : w.Sound) :
    ∃ w'', destroyAll nodes w' = .done w'' ∧ Parses w w'' [] [] := by
  have howns : Owns w' (ownersAll nodes) (registeredAll nodes) w.ns.bindings_ [] := by
    obtain ⟨bs, hbs, hmap⟩ := h.bindings
    exact ⟨h.sound.linked, h.kinds, h.nodup, ⟨bs, by rw [hbs, List.append_nil], hmap⟩, h.apart hw⟩
  obtain ⟨w'', hrun, hd⟩ := destroyAll_spec nodes howns
  have hns : w''.ns.bindings_ = w.ns.bindings_ := by rw [hd.ns, List.append_nil]
  have hkind (p : NodePtr) (hp : p < w.made) : w''.kind p = w.kind p := by
    rw [hd.kind, if_neg, h.kept hp]
    intro hmem
    obtain ⟨o, ho, rfl⟩ := List.mem_map.1 hmem
    exact absurd hp (not_lt.2 (h.created ho))
  refine ⟨w'', hrun, by rw [hd.ns]; exact h.current, ⟨[], by rw [hns, List.append_nil], rfl⟩,
    ⟨hd.linked, ?_, ?_, ?_⟩, h.made.trans_eq hd.made.symm, by simp, by simp, by simp, hkind _⟩
  · rw [NameSpace.NamesDistinct, hns]
    exact hw.distinct
  · intro b hb
    rw [hns] at hb
    rw [hkind _ (hw.lt_made (hw.alive hb))]
    exact hw.alive hb
  · intro p hp
    rw [hd.kind, h.sound.fresh (hd.made ▸ hp)]
    simp

end Parses

section Make

variable (w n)

theorem kind_make : (w.make n).kind = Function.update w.kind w.made (some n.isContainer) := kind_set w w.made n

theorem next_make : (w.make n).next = Function.update w.next w.made n.next_ := next_set w w.made n

theorem prev_make : (w.make n).prev = Function.update w.prev w.made n.prev_ := prev_set w w.made n

end Make

/-- Making a node that is not linked -/
theorem Sound.make (h : w.Sound) (hnext : n.next_ = none) (hprev : n.prev_ = none) :
    (w.make n).Sound := by
  have hnone := h.fresh (le_refl w.made)
  have hlinks : w.next w.made = none ∧ w.prev w.made = none := by
    have hnodes : w.nodes w.made = none := Option.map_eq_none_iff.1 hnone
    rw [next, prev, hnodes]
    exact ⟨rfl, rfl⟩
  have hn : (w.make n).next = w.next := by
    rw [next_make, hnext, ← hlinks.1]
    exact Function.update_eq_self w.made w.next
  have hp : (w.make n).prev = w.prev := by
    rw [prev_make, hprev, ← hlinks.2]
    exact Function.update_eq_self w.made w.prev
  have hkind (p : NodePtr) (hp : w.kind p ≠ none) : (w.make n).kind p = w.kind p := by
    rw [kind_make, Function.update_of_ne (h.lt_made hp).ne]
  refine ⟨⟨by rw [hn, hp]; exact h.linked.lists, ?_, ?_⟩, h.distinct, ?_, ?_⟩
  · intro p q hq
    rw [hn] at hq
    obtain ⟨hkp, hkq⟩ := h.linked.containers hq
    rw [hkind p (by rw [hkp]; simp), hkind q (by rw [hkq]; simp)]
    exact ⟨hkp, hkq⟩
  · intro b hb
    rw [hp]
    exact h.linked.head hb
  · intro b hb
    rw [hkind _ (h.alive hb)]
    exact h.alive hb
  · intro p hp
    have hlt : w.made < p := hp
    rw [kind_make, Function.update_of_ne hlt.ne']
    exact h.fresh hlt.le

namespace Parses

/-- A node is made for the trees. -/
theorem make (h : Parses w w₁ os rs) (hnext : n.next_ = none) (hprev : n.prev_ = none) :
    Parses w (w₁.make n) (os ++ [(w₁.made, n.isContainer)]) rs where
  current := h.current
  bindings := h.bindings
  sound := h.sound.make hnext hprev
  made := h.made.trans (Nat.le_succ _)
  created ho := by
    rcases List.mem_append.1 ho with ho | ho
    · exact h.created ho
    · obtain rfl := List.mem_singleton.1 ho
      exact h.made
  kinds {o} ho := by
    rw [kind_make]
    rcases List.mem_append.1 ho with ho | ho
    · have hlt := h.sound.lt_made (p := o.1) (by rw [h.kinds ho]; simp)
      rw [Function.update_of_ne hlt.ne]
      exact h.kinds ho
    · obtain rfl := List.mem_singleton.1 ho
      simp
  nodup := by
    rw [List.map_append, List.nodup_append]
    refine ⟨h.nodup, by simp, fun p hp q hq => ?_⟩
    obtain ⟨o, ho, rfl⟩ := List.mem_map.1 hp
    obtain rfl : q = w₁.made := by simpa using hq
    exact (h.sound.lt_made (by rw [h.kinds ho]; simp)).ne
  kept {p} hp := by
    rw [kind_make, Function.update_of_ne (hp.trans_le h.made).ne]
    exact h.kept hp

/-- The scope is closed without a binding. -/
theorem close (h : Parses { w with ns := ⟨cur, w.ns.bindings_⟩ } w₁ os rs) :
    Parses w { w₁ with ns := ⟨w.ns.curNamespace_, w₁.ns.bindings_⟩ } os rs :=
  ⟨rfl, h.bindings, h.sound.enter _, h.made, h.created, h.kinds, h.nodup, h.kept⟩

/-- A node of the trees that is not bound yet is bound to a new name. -/
theorem bind (h : Parses w w₁ os rs) {c : Bool} (hmem : (p, c) ∈ os) (hprev : w₁.prev p = none)
    (hnone : w₁.ns.findBinding cur = none) :
    Parses w { w₁ with ns := ⟨w₁.ns.curNamespace_, w₁.ns.bindings_ ++ [⟨cur, p⟩]⟩ } os (rs ++ [p]) where
  current := h.current
  bindings := by
    obtain ⟨bs, hbs, hmap⟩ := h.bindings
    exact ⟨bs ++ [⟨cur, p⟩], by rw [← List.append_assoc, ← hbs], by simp [hmap]⟩
  sound := by
    refine ⟨⟨h.sound.linked.lists, h.sound.linked.containers, fun {b} hb => ?_⟩, ?_, fun {b} hb => ?_,
      h.sound.fresh⟩
    · rcases List.mem_append.1 hb with hb | hb
      · exact h.sound.linked.head hb
      · obtain rfl := List.mem_singleton.1 hb
        exact hprev
    · exact h.sound.distinct.concat hnone
    · rcases List.mem_append.1 hb with hb | hb
      · exact h.sound.alive hb
      · obtain rfl := List.mem_singleton.1 hb
        intro hk
        have hp := h.kinds hmem
        exact absurd (hp.symm.trans hk) (by simp)
  made := h.made
  created := h.created
  kinds := h.kinds
  nodup := h.nodup
  kept := h.kept

/-- Only the links between containers change. -/
theorem relink (h : Parses w w₁ os rs) (hlinked : w₂.Linked) (hns : w₂.ns = w₁.ns)
    (hmade : w₂.made = w₁.made) (hkind : w₂.kind = w₁.kind) : Parses w w₂ os rs where
  current := by rw [hns]; exact h.current
  bindings := by rw [hns]; exact h.bindings
  sound := ⟨hlinked, by rw [hns]; exact h.sound.distinct, by rw [hns, hkind]; exact h.sound.alive,
    by rw [hmade, hkind]; exact h.sound.fresh⟩
  made := by rw [hmade]; exact h.made
  created := h.created
  kinds := by rw [hkind]; exact h.kinds
  nodup := h.nodup
  kept := by rw [hkind]; exact h.kept

end Parses

theorem openScope_eq_done {name : Name} (h : w.openScope name = .done (reg, w₁)) :
    ∃ cur, reg = ⟨w.ns.curNamespace_, .null⟩ ∧ w₁ = { w with ns := ⟨cur, w.ns.bindings_⟩ } := by
  obtain ⟨⟨_, ns⟩, hopen, h⟩ := bind_eq_done.1 h
  cases h
  obtain ⟨-, -, rfl, rfl⟩ := NameSpace.openScope_eq_done.1 hopen
  exact ⟨_, rfl, rfl⟩

theorem markDead_eq_done {reg' : ScopeRegistration} (h : w.markDead reg = .done (reg', w₁)) :
    reg'.node_ = .ignore ∧ w₁ = { w with ns := ⟨reg.oldScope_, w.ns.bindings_⟩ } := by
  obtain ⟨⟨_, ns⟩, hprovide, h⟩ := bind_eq_done.1 h
  cases h
  obtain ⟨-, ⟨hop, -⟩ | ⟨-, rfl, rfl⟩⟩ := NameSpace.provide_eq_done.1 hprovide
  · exact absurd rfl hop
  · exact ⟨rfl, rfl⟩

/-- A node is made for the scope that was opened before its contents, and the scope is
closed. -/
theorem Parses.makeRegistered (h : Parses { w with ns := ⟨cur, w.ns.bindings_⟩ } w₁ os rs)
    (hrun : w₁.makeRegistered ⟨w.ns.curNamespace_, .null⟩ n = .done (w₂, this)) (hop : n.op ≠ .deadScope)
    (hnext : n.next_ = none) (hprev : n.prev_ = none) :
    Parses w w₂ (os ++ [(this, n.isContainer)]) (rs ++ [this]) := by
  obtain ⟨⟨_, ns⟩, hprovide, hrun⟩ := bind_eq_done.1 hrun
  cases hrun
  obtain ⟨-, ⟨-, hnone, -, rfl⟩ | ⟨hdead, -⟩⟩ := NameSpace.provide_eq_done.1 hprovide
  · have hmake := h.make hnext hprev
    have hmem : (w₁.made, n.isContainer) ∈ os ++ [(w₁.made, n.isContainer)] := by simp
    have hprev' : (w₁.make n).prev w₁.made = none := by
      rw [prev_make, Function.update_self]
      exact hprev
    exact (hmake.bind hmem hprev' hnone).close
  · exact absurd hdead hop

/-- The same for a container -/
theorem Parses.makeContainer {op : Opcode} {ignored : Bool}
    (h : Parses { w with ns := ⟨cur, w.ns.bindings_⟩ } w₁ os rs)
    (hrun : w₁.makeContainer ⟨w.ns.curNamespace_, .null⟩ op = .done (w₂, this, ignored))
    (hop : op ≠ .deadScope) :
    ignored = false ∧ Parses w w₂ (os ++ [(this, true)]) (rs ++ [this]) := by
  rw [World.makeContainer, if_neg (by simp)] at hrun
  obtain ⟨⟨w₃, p⟩, hmake, hrun⟩ := bind_eq_done.1 hrun
  cases hrun
  exact ⟨rfl, h.makeRegistered hmake hop rfl rfl⟩

theorem lastLinked_spec {fuel : ℕ} (h : w.lastLinked fuel p = .done q) :
    w.next q = none ∧ w.kind q ≠ none ∧ (q = p ∨ ∃ r, w.next r = some q) := by
  induction fuel generalizing p with
  | zero => cases h
  | succ fuel ih =>
      obtain ⟨n, hn, h⟩ := bind_eq_done.1 h
      rw [get_eq_done] at hn
      cases hnext : n.next_ with
      | none =>
          rw [hnext] at h
          cases h
          exact ⟨(next_of_nodes hn).trans hnext, by rw [kind_of_nodes hn]; simp, .inl rfl⟩
      | some next =>
          rw [hnext] at h
          obtain ⟨hq, hk, rfl | hr⟩ := ih h
          · exact ⟨hq, hk, .inr ⟨p, (next_of_nodes hn).trans hnext⟩⟩
          · exact ⟨hq, hk, .inr hr⟩

/-- The container that was made last is linked to the end of the list of another one. -/
theorem Parses.merge {fuel : ℕ} {other : NodePtr} (h : Parses w w₁ os rs)
    (hrun : w₁.merge fuel p other = .done w₂) (hlast : w₁.made = other + 1) (hne : p ≠ other)
    (hp : w₁.kind p = some true) (hbound : ∀ b ∈ w₁.ns.bindings_, b.n ≠ other) : Parses w w₂ os rs := by
  rw [World.merge] at hrun
  obtain ⟨o, ho, hrun⟩ := bind_eq_done.1 hrun
  obtain ⟨hcontainer, hrun⟩ := require_bind_eq_done.1 hrun
  obtain ⟨-, hrun⟩ := require_bind_eq_done.1 hrun
  obtain ⟨_, -, hrun⟩ := bind_eq_done.1 hrun
  obtain ⟨-, hrun⟩ := require_bind_eq_done.1 hrun
  obtain ⟨-, hrun⟩ := require_bind_eq_done.1 hrun
  obtain ⟨hprev, hrun⟩ := require_bind_eq_done.1 hrun
  obtain ⟨hnext, hrun⟩ := require_bind_eq_done.1 hrun
  obtain ⟨before, hbefore, hrun⟩ := bind_eq_done.1 hrun
  obtain ⟨b, hb, hrun⟩ := bind_eq_done.1 hrun
  cases hrun
  rw [get_eq_done] at ho hb
  rw [← prev_of_nodes ho] at hprev
  rw [← next_of_nodes ho] at hnext
  obtain ⟨hend, halive, hreached⟩ := lastLinked_spec hbefore
  have hbo : before ≠ other := by
    rcases hreached with rfl | ⟨r, hr⟩
    · exact hne
    · rintro rfl
      rw [h.sound.linked.lists.prev_of_next hr] at hprev
      cases hprev
  have hlt : before < other := by
    have hlt := h.sound.lt_made halive
    rw [hlast] at hlt
    exact lt_of_le_of_ne (Nat.lt_succ_iff.1 hlt) hbo
  have hkind_before : w₁.kind before = some true := by
    rcases hreached with rfl | ⟨r, hr⟩
    · exact hp
    · exact (h.sound.linked.containers hr).2
  have hkind_other : w₁.kind other = some true := by rw [kind_of_nodes ho, hcontainer]
  have hn : ((w₁.set before { b with next_ := some other }).set other { o with prev_ := some before }).next =
      Function.update w₁.next before (some other) := by
    rw [next_set, next_set, Function.update_eq_self_iff, Function.update_of_ne hbo.symm]
    exact (next_of_nodes ho).symm
  have hp' : ((w₁.set before { b with next_ := some other }).set other { o with prev_ := some before }).prev =
      Function.update w₁.prev other (some before) := by
    have hb' : Function.update w₁.prev before b.prev_ = w₁.prev :=
      Function.update_eq_self_iff.2 (prev_of_nodes hb).symm
    rw [prev_set, prev_set, hb']
  have hk : ((w₁.set before { b with next_ := some other }).set other { o with prev_ := some before }).kind =
      w₁.kind := by
    have hb' : Function.update w₁.kind before (some b.isContainer) = w₁.kind :=
      Function.update_eq_self_iff.2 (kind_of_nodes hb).symm
    have ho' : Function.update w₁.kind other (some o.isContainer) = w₁.kind :=
      Function.update_eq_self_iff.2 (kind_of_nodes ho).symm
    rw [kind_set, kind_set, hb', ho']
  refine h.relink ⟨?_, ?_, ?_⟩ rfl rfl hk
  · rw [hn, hp']
    exact h.sound.linked.lists.append hend hnext hprev hlt
  · intro q r hq
    rw [hk]
    rw [hn] at hq
    by_cases hqb : q = before
    · subst hqb
      obtain rfl : other = r := by simpa using hq
      exact ⟨hkind_before, hkind_other⟩
    · rw [Function.update_of_ne hqb] at hq
      exact h.sound.linked.containers hq
  · intro b' hb'
    rw [hp', Function.update_of_ne (hbound b' hb')]
    exact h.sound.linked.head hb'

end World

/-- A parse function keeps the discipline. `nodes` are the trees of its result. -/
def Disciplined {α : Type} (nodes : α → List Node) (p : Parse α) : Prop :=
  ∀ ⦃w w' : World⦄ ⦃data data' : ParseState⦄ ⦃r : Option α⦄, w.Sound →
    p w data = .done (w', data', r) →
      w.Parses w' (ownersAll (returned nodes r)) (registeredAll (returned nodes r))

section Cases

open World

variable {mem : Memory} {fuel : ℕ} {w w' : World} {data data' : ParseState} {termList : Parse (List Node)}

theorem ownersAll_append (l₁ l₂ : List Node) : ownersAll (l₁ ++ l₂) = ownersAll l₁ ++ ownersAll l₂ := by
  induction l₁ with
  | nil => rfl
  | cons n l₁ ih => rw [List.cons_append, ownersAll, ownersAll, ih, List.append_assoc]

theorem registeredAll_append (l₁ l₂ : List Node) :
    registeredAll (l₁ ++ l₂) = registeredAll l₁ ++ registeredAll l₂ := by
  induction l₁ with
  | nil => rfl
  | cons n l₁ ih => rw [List.cons_append, registeredAll, registeredAll, ih, List.append_assoc]

theorem liftTerm_disciplined {p : World → ParseState → Outcome (ParseState × Option Term)} :
    Disciplined (fun n => [n]) (liftTerm p) := by
  intro w w' data data' r hw h
  obtain ⟨⟨_, t⟩, -, h⟩ := bind_eq_done.1 h
  cases h
  cases t with
  | none => exact .refl hw
  | some t => exact .refl hw

theorem parseNamedField_disciplined : Disciplined (fun n => [n]) (parseNamedField mem) := by
  intro w w' data data' r hw h
  rw [parseNamedField] at h
  obtain ⟨-, h⟩ := require_bind_eq_done.1 h
  obtain ⟨_, -, h⟩ := bind_eq_done.1 h
  obtain ⟨-, h⟩ := require_bind_eq_done.1 h
  obtain ⟨name, -, h⟩ := bind_eq_done.1 h
  obtain ⟨_, -, h⟩ := bind_eq_done.1 h
  obtain ⟨⟨_, len⟩, -, h⟩ := bind_eq_done.1 h
  obtain ⟨⟨reg, w₁⟩, hopen, h⟩ := bind_eq_done.1 h
  obtain ⟨⟨w₂, this⟩, hmake, h⟩ := bind_eq_done.1 h
  cases h
  obtain ⟨cur, rfl, rfl⟩ := openScope_eq_done hopen
  exact (Parses.refl (hw.enter cur)).makeRegistered hmake (by decide) rfl rfl

/-- The step of a loop that collects trees -/
theorem World.Parses.snoc {w₁ : World} {elements nodes : List Node}
    (h : w.Parses w₁ (ownersAll elements) (registeredAll elements))
    (h' : w₁.Parses w' (ownersAll nodes) (registeredAll nodes)) :
    w.Parses w' (ownersAll (elements ++ nodes)) (registeredAll (elements ++ nodes)) := by
  rw [ownersAll_append, registeredAll_append]
  exact h.trans h'

theorem parseFieldListFrom_parses {r : Option (List Node)} {w₁ : World} {elements : List Node}
    (hw : w.Parses w₁ (ownersAll elements) (registeredAll elements))
    (h : parseFieldListFrom mem fuel elements w₁ data = .done (w', data', r)) :
    w.Parses w' (ownersAll (returned id r)) (registeredAll (returned id r)) := by
  induction fuel generalizing elements w₁ data with
  | zero => cases h
  | succ fuel ih =>
      rw [parseFieldListFrom] at h
      dsimp only at h
      by_cases hend : data.begin_ = data.end_
      · rw [if_pos hend] at h
        cases h
        exact hw
      · rw [if_neg hend] at h
        obtain ⟨first, -, h⟩ := bind_eq_done.1 h
        by_cases h0 : first = 0
        · rw [if_pos h0] at h
          obtain ⟨_, -, h⟩ := bind_eq_done.1 h
          obtain ⟨_, -, h⟩ := bind_eq_done.1 h
          exact ih (hw.snoc (.refl hw.sound)) h
        · rw [if_neg h0] at h
          by_cases h1 : first = 1
          · rw [if_pos h1] at h
            obtain ⟨_, -, h⟩ := bind_eq_done.1 h
            obtain ⟨_, -, h⟩ := bind_eq_done.1 h
            obtain ⟨_, -, h⟩ := bind_eq_done.1 h
            exact ih (hw.snoc (.refl hw.sound)) h
          · rw [if_neg h1] at h
            by_cases hname : isLeadNameChar first
            · rw [if_pos hname] at h
              obtain ⟨⟨w₂, _, namedField⟩, hfield, h⟩ := bind_eq_done.1 h
              refine ih (hw.snoc ?_) h
              have hparses := parseNamedField_disciplined hw.sound hfield
              cases namedField with
              | none => exact hparses
              | some n => exact hparses
            · rw [if_neg hname] at h
              cases h

theorem parseFieldList_disciplined : Disciplined id (parseFieldList mem fuel) :=
  fun _ _ _ _ _ hw h => parseFieldListFrom_parses (.refl hw) h

/-- A loop over elements that keep the discipline -/
theorem parseList_parses {p : Parse Node} (hp : Disciplined (fun n => [n]) p) {r : Option (List Node)}
    {w₁ : World} {objs : List Node} (hw : w.Sound)
    (hparses : w.Parses w₁ (ownersAll objs) (registeredAll objs))
    (h : parseList Node.opcode destroyAll p fuel w₁ data objs = .done (w', data', r)) :
    w.Parses w' (ownersAll (returned id r)) (registeredAll (returned id r)) := by
  induction fuel generalizing objs w₁ data with
  | zero => cases h
  | succ fuel ih =>
      rw [parseList] at h
      by_cases hend : data.begin_ = data.end_
      · rw [if_pos hend] at h
        cases h
        exact hparses
      · rw [if_neg hend] at h
        obtain ⟨⟨w₂, data₂, res⟩, hres, h⟩ := bind_eq_done.1 h
        have hstep := hp hparses.sound hres
        cases res with
        | none =>
            -- the elements before the one that failed are destroyed
            obtain ⟨w₃, hdestroy, h⟩ := bind_eq_done.1 h
            cases h
            have hall : w.Parses w₂ (ownersAll objs) (registeredAll objs) := by
              simpa [returned, ownersAll, registeredAll] using hparses.trans hstep
            obtain ⟨w₄, hdestroy', hgone⟩ := hall.destroyAll hw
            cases hdestroy.symm.trans hdestroy'
            exact hgone
        | some obj =>
            dsimp only at h
            by_cases hop : Node.opcode obj ≠ .deadScope
            · rw [if_pos hop] at h
              exact ih (hparses.snoc hstep) h
            · rw [if_neg hop] at h
              obtain ⟨w₃, hdestroy, h⟩ := bind_eq_done.1 h
              obtain ⟨w₄, hdestroy', hgone⟩ := hstep.destroyAll hparses.sound
              cases hdestroy.symm.trans hdestroy'
              exact ih (by simpa using hparses.trans hgone) h

theorem parseDefName_disciplined : Disciplined (fun n => [n]) (parseDefName mem fuel) := by
  intro w w' data data' r hw h
  rw [parseDefName] at h
  obtain ⟨⟨_, name⟩, -, h⟩ := bind_eq_done.1 h
  obtain ⟨⟨reg, w₁⟩, hopen, h⟩ := bind_eq_done.1 h
  obtain ⟨⟨_, dataRefObject⟩, -, h⟩ := bind_eq_done.1 h
  obtain ⟨⟨w₂, this⟩, hmake, h⟩ := bind_eq_done.1 h
  obtain ⟨obj, -, h⟩ := bind_eq_done.1 h
  cases h
  obtain ⟨cur, rfl, rfl⟩ := openScope_eq_done hopen
  exact (Parses.refl (hw.enter cur)).makeRegistered hmake (by decide) rfl rfl

theorem parseDefMethod_disciplined : Disciplined (fun n => [n]) (parseDefMethod mem) := by
  intro w w' data data' r hw h
  rw [parseDefMethod] at h
  obtain ⟨pkgData, -, h⟩ := bind_eq_done.1 h
  obtain ⟨⟨_, name⟩, -, h⟩ := bind_eq_done.1 h
  obtain ⟨⟨reg, w₁⟩, hopen, h⟩ := bind_eq_done.1 h
  obtain ⟨⟨methodFlags, _⟩, -, h⟩ := bind_eq_done.1 h
  obtain ⟨⟨w₂, this⟩, hmake, h⟩ := bind_eq_done.1 h
  cases h
  obtain ⟨cur, rfl, rfl⟩ := openScope_eq_done hopen
  exact (Parses.refl (hw.enter cur)).makeRegistered hmake nofun rfl rfl

theorem parseDefCreateFieldOf_disciplined {op : Opcode} (hop : op ≠ .deadScope) :
    Disciplined (fun n => [n]) (parseDefCreateFieldOf mem fuel op) := by
  intro w w' data data' r hw h
  rw [parseDefCreateFieldOf] at h
  obtain ⟨⟨_, sourceBuffer⟩, -, h⟩ := bind_eq_done.1 h
  obtain ⟨⟨_, byteIndex⟩, -, h⟩ := bind_eq_done.1 h
  obtain ⟨⟨_, name⟩, -, h⟩ := bind_eq_done.1 h
  obtain ⟨⟨reg, w₁⟩, hopen, h⟩ := bind_eq_done.1 h
  obtain ⟨⟨w₂, this⟩, hmake, h⟩ := bind_eq_done.1 h
  cases h
  obtain ⟨cur, rfl, rfl⟩ := openScope_eq_done hopen
  exact (Parses.refl (hw.enter cur)).makeRegistered hmake hop rfl rfl

theorem parseDefStore_disciplined : Disciplined (fun n => [n]) (parseDefStore mem fuel) := by
  intro w w' data data' r hw h
  rw [parseDefStore] at h
  obtain ⟨⟨_, arg⟩, -, h⟩ := bind_eq_done.1 h
  cases arg with
  | none =>
      cases h
      exact .refl hw
  | some arg =>
      obtain ⟨_, -, h⟩ := bind_eq_done.1 h
      cases h
      exact .refl hw

theorem parseDefReturn_disciplined : Disciplined (fun n => [n]) (parseDefReturn mem fuel) := by
  intro w w' data data' r hw h
  rw [parseDefReturn] at h
  obtain ⟨⟨_, arg⟩, -, h⟩ := bind_eq_done.1 h
  cases h
  cases arg with
  | none => exact .refl hw
  | some arg => exact .refl hw

theorem parseDefNotify_disciplined : Disciplined (fun n => [n]) (parseDefNotify mem fuel) := by
  intro w w' data data' r hw h
  rw [parseDefNotify] at h
  obtain ⟨_, -, h⟩ := bind_eq_done.1 h
  obtain ⟨_, -, h⟩ := bind_eq_done.1 h
  cases h
  exact .refl hw

theorem parseDefMutex_disciplined : Disciplined (fun n => [n]) (parseDefMutex mem) := by
  intro w w' data data' r hw h
  rw [parseDefMutex] at h
  obtain ⟨_, -, h⟩ := bind_eq_done.1 h
  obtain ⟨_, -, h⟩ := bind_eq_done.1 h
  obtain ⟨-, h⟩ := require_bind_eq_done.1 h
  cases h
  exact .refl hw

theorem parseDefCreateField_disciplined : Disciplined (fun n => [n]) (parseDefCreateField mem fuel) := by
  intro w w' data data' r hw h
  rw [parseDefCreateField] at h
  obtain ⟨_, -, h⟩ := bind_eq_done.1 h
  obtain ⟨_, -, h⟩ := bind_eq_done.1 h
  obtain ⟨_, -, h⟩ := bind_eq_done.1 h
  obtain ⟨_, -, h⟩ := bind_eq_done.1 h
  cases h
  exact .refl hw

theorem parseDefFatal_disciplined : Disciplined (fun n => [n]) (parseDefFatal mem fuel) := by
  intro w w' data data' r hw h
  rw [parseDefFatal] at h
  obtain ⟨_, -, h⟩ := bind_eq_done.1 h
  obtain ⟨_, -, h⟩ := bind_eq_done.1 h
  obtain ⟨_, -, h⟩ := bind_eq_done.1 h
  cases h
  exact .refl hw

theorem parseDefOpRegion_disciplined : Disciplined (fun n => [n]) (parseDefOpRegion mem fuel) := by
  intro w w' data data' r hw h
  rw [parseDefOpRegion] at h
  obtain ⟨_, -, h⟩ := bind_eq_done.1 h
  obtain ⟨_, -, h⟩ := bind_eq_done.1 h
  obtain ⟨_, -, h⟩ := bind_eq_done.1 h
  obtain ⟨_, -, h⟩ := bind_eq_done.1 h
  cases h
  exact .refl hw

/-- A field has the nodes of its list. -/
theorem World.Parses.field {name : Name} {fieldFlags : UInt8} {fieldList : Option (List Node)}
    (h : w.Parses w' (ownersAll (returned id fieldList)) (registeredAll (returned id fieldList))) :
    let nodes := returned (fun n => [n]) (fieldList.map fun fields => Node.field name fieldFlags fields)
    w.Parses w' (ownersAll nodes) (registeredAll nodes) := by
  cases fieldList with
  | none => exact h
  | some fields => simpa [returned, ownersAll, registeredAll, Node.owners, Node.registered] using h

theorem parseDefField_disciplined : Disciplined (fun n => [n]) (parseDefField mem fuel) := by
  intro w w' data data' r hw h
  rw [parseDefField] at h
  obtain ⟨pkgData, -, h⟩ := bind_eq_done.1 h
  obtain ⟨_, -, h⟩ := bind_eq_done.1 h
  obtain ⟨_, -, h⟩ := bind_eq_done.1 h
  obtain ⟨⟨w₁, _, fieldList⟩, hfields, h⟩ := bind_eq_done.1 h
  cases h
  exact (parseFieldList_disciplined hw hfields).field

theorem parseDefIndexField_disciplined : Disciplined (fun n => [n]) (parseDefIndexField mem fuel) := by
  intro w w' data data' r hw h
  rw [parseDefIndexField] at h
  obtain ⟨pkgData, -, h⟩ := bind_eq_done.1 h
  obtain ⟨_, -, h⟩ := bind_eq_done.1 h
  obtain ⟨_, -, h⟩ := bind_eq_done.1 h
  obtain ⟨_, -, h⟩ := bind_eq_done.1 h
  obtain ⟨⟨w₁, _, fieldList⟩, hfields, h⟩ := bind_eq_done.1 h
  cases h
  exact (parseFieldList_disciplined hw hfields).field

/-- A container whose registration is its own -/
theorem World.Parses.container {nodes : List Node} {this : NodePtr} {op : Opcode}
    (h : w.Parses w' (ownersAll nodes ++ [(this, true)]) (registeredAll nodes ++ [this])) :
    w.Parses w' (ownersAll [.container this false op nodes]) (registeredAll [.container this false op nodes]) := by
  simpa [ownersAll, registeredAll, Node.owners, Node.registered] using h

/-- A container whose registration is ignored -/
theorem World.Parses.helper {nodes : List Node} {this : NodePtr} {op : Opcode}
    (h : w.Parses w' (ownersAll nodes ++ [(this, true)]) (registeredAll nodes)) :
    w.Parses w' (ownersAll [.container this true op nodes]) (registeredAll [.container this true op nodes]) := by
  simpa [ownersAll, registeredAll, Node.owners, Node.registered] using h

theorem parseDefScope_disciplined (hlist : Disciplined id termList) :
    Disciplined (fun n => [n]) (parseDefScope mem fuel termList) := by
  intro w w' data data' r hw h
  rw [parseDefScope] at h
  obtain ⟨pkgData, -, h⟩ := bind_eq_done.1 h
  obtain ⟨⟨_, name⟩, -, h⟩ := bind_eq_done.1 h
  obtain ⟨⟨reg, w₁⟩, hopen, h⟩ := bind_eq_done.1 h
  obtain ⟨⟨w₂, _, list⟩, hrun, h⟩ := bind_eq_done.1 h
  obtain ⟨nodes, hnodes, h⟩ := bind_eq_done.1 h
  obtain rfl := requireSome_eq_done.1 hnodes
  obtain ⟨-, h⟩ := require_bind_eq_done.1 h
  obtain ⟨n, hlookup, h⟩ := bind_eq_done.1 h
  obtain ⟨cur, rfl, rfl⟩ := openScope_eq_done hopen
  have hparses := hlist (hw.enter cur) hrun
  cases n with
  | none =>
      obtain ⟨⟨w₃, this, ignored⟩, hmake, h⟩ := bind_eq_done.1 h
      cases h
      obtain ⟨rfl, hmade⟩ := hparses.makeContainer hmake (by decide)
      exact hmade.container
  | some n =>
      obtain ⟨⟨reg, w₃⟩, hdead, h⟩ := bind_eq_done.1 h
      obtain ⟨⟨w₄, this, ignored⟩, hmake, h⟩ := bind_eq_done.1 h
      obtain ⟨node, hnode, h⟩ := bind_eq_done.1 h
      obtain ⟨hcontainer, h⟩ := require_bind_eq_done.1 h
      obtain ⟨w₅, hmerge, h⟩ := bind_eq_done.1 h
      cases h
      obtain ⟨hignore, rfl⟩ := markDead_eq_done hdead
      rw [World.makeContainer, if_pos hignore] at hmake
      cases hmake
      -- the node that the name denotes is bound, so that it is not the new one
      have hn : n < w₂.made := by
        obtain ⟨b, hb, rfl⟩ := NameSpace.lookupNode_mem hlookup
        exact hparses.sound.lt_made (hparses.sound.alive hb)
      have hmade := hparses.close.make (n := ⟨.scope, true, 0, none, none⟩) rfl rfl
      have hkind := kind_of_nodes (get_eq_done.1 hnode)
      rw [hcontainer] at hkind
      refine World.Parses.helper (hmade.merge hmerge rfl hn.ne hkind fun b hb => ?_)
      exact (hparses.sound.lt_made (hparses.sound.alive hb)).ne

theorem parseDefContainer_disciplined {op : Opcode} {header : ParseState → Outcome ParseState}
    (hlist : Disciplined id termList) (hop : op ≠ .deadScope) :
    Disciplined (fun n => [n]) (parseDefContainer mem termList op header) := by
  intro w w' data data' r hw h
  rw [parseDefContainer] at h
  obtain ⟨pkgData, -, h⟩ := bind_eq_done.1 h
  obtain ⟨⟨_, name⟩, -, h⟩ := bind_eq_done.1 h
  obtain ⟨rest, -, h⟩ := bind_eq_done.1 h
  obtain ⟨⟨reg, w₁⟩, hopen, h⟩ := bind_eq_done.1 h
  obtain ⟨⟨w₂, _, list⟩, hrun, h⟩ := bind_eq_done.1 h
  obtain ⟨nodes, hnodes, h⟩ := bind_eq_done.1 h
  obtain ⟨⟨w₃, this, ignored⟩, hmake, h⟩ := bind_eq_done.1 h
  cases h
  obtain rfl := requireSome_eq_done.1 hnodes
  obtain ⟨cur, rfl, rfl⟩ := openScope_eq_done hopen
  have hparses := hlist (hw.enter cur) hrun
  obtain ⟨rfl, hmade⟩ := hparses.makeContainer hmake hop
  exact hmade.container

theorem parseDefIfElse_disciplined (hlist : Disciplined id termList) :
    Disciplined (fun n => [n]) (parseDefIfElse mem fuel termList) := by
  intro w w' data data' r hw h
  rw [parseDefIfElse] at h
  obtain ⟨pkgData, -, h⟩ := bind_eq_done.1 h
  obtain ⟨⟨_, predicate⟩, -, h⟩ := bind_eq_done.1 h
  cases predicate with
  | none =>
      cases h
      exact .refl hw
  | some predicate =>
      obtain ⟨⟨w₁, _, ifStatements⟩, hif, h⟩ := bind_eq_done.1 h
      have hparses := hlist hw hif
      cases ifStatements with
      | none =>
          cases h
          exact hparses
      | some ifStatements =>
          obtain ⟨hasElse, -, h⟩ := bind_eq_done.1 h
          cases hasElse with
          | false =>
              cases h
              simpa [returned, ownersAll, registeredAll, Node.owners, Node.registered] using hparses
          | true =>
              obtain ⟨_, -, h⟩ := bind_eq_done.1 h
              obtain ⟨_, -, h⟩ := bind_eq_done.1 h
              obtain ⟨⟨w₂, _, elseStatements⟩, helse, h⟩ := bind_eq_done.1 h
              have hparses' := hlist hparses.sound helse
              cases elseStatements with
              | none =>
                  -- the statements of the first branch are destroyed
                  obtain ⟨w₃, hdestroy, h⟩ := bind_eq_done.1 h
                  cases h
                  have hall : w.Parses w₂ (ownersAll ifStatements) (registeredAll ifStatements) := by
                    simpa [returned, ownersAll, registeredAll] using hparses.trans hparses'
                  obtain ⟨w₄, hdestroy', hgone⟩ := hall.destroyAll hw
                  cases hdestroy.symm.trans hdestroy'
                  exact hgone
              | some elseStatements =>
                  cases h
                  simpa [returned, ownersAll, registeredAll, Node.owners, Node.registered]
                    using hparses.trans hparses'

theorem parseDefWhile_disciplined (hlist : Disciplined id termList) :
    Disciplined (fun n => [n]) (parseDefWhile mem fuel termList) := by
  intro w w' data data' r hw h
  rw [parseDefWhile] at h
  obtain ⟨pkgData, -, h⟩ := bind_eq_done.1 h
  obtain ⟨⟨_, predicate⟩, -, h⟩ := bind_eq_done.1 h
  cases predicate with
  | none =>
      cases h
      exact .refl hw
  | some predicate =>
      obtain ⟨⟨w₁, _, statements⟩, hrun, h⟩ := bind_eq_done.1 h
      have hparses := hlist hw hrun
      cases statements with
      | none =>
          cases h
          exact hparses
      | some statements =>
          cases h
          simpa [returned, ownersAll, registeredAll, Node.owners, Node.registered] using hparses

theorem parseObject_disciplined {objectList : Parse (List Node)} {op : Opcode}
    (hterms : Disciplined id termList) (hobjects : Disciplined id objectList) :
    Disciplined (fun n => [n]) (parseObject mem fuel termList objectList op) := by
  rw [parseObject.eq_def]
  split
  case h_1 => exact parseDefName_disciplined
  case h_2 => exact parseDefScope_disciplined hterms
  case h_3 => exact parseDefMethod_disciplined
  case h_4 => exact parseDefStore_disciplined
  case h_5 => exact parseDefNotify_disciplined
  case h_6 => exact parseDefCreateFieldOf_disciplined nofun
  case h_7 => exact parseDefCreateFieldOf_disciplined nofun
  case h_8 => exact parseDefCreateFieldOf_disciplined nofun
  case h_9 => exact parseDefCreateFieldOf_disciplined nofun
  case h_10 => exact parseDefCreateFieldOf_disciplined nofun
  case h_11 => exact parseDefIfElse_disciplined hterms
  case h_12 => exact parseDefWhile_disciplined hterms
  case h_13 =>
    intro w w' data data' r hw h
    cases h
    exact .refl hw
  case h_14 => exact parseDefReturn_disciplined
  case h_15 => exact parseDefMutex_disciplined
  case h_16 => exact parseDefCreateField_disciplined
  case h_17 => exact parseDefFatal_disciplined
  case h_18 => exact parseDefOpRegion_disciplined
  case h_19 => exact parseDefField_disciplined
  case h_20 => exact parseDefContainer_disciplined hobjects nofun
  case h_21 => exact parseDefContainer_disciplined hobjects nofun
  case h_22 => exact parseDefContainer_disciplined hobjects nofun
  case h_23 => exact parseDefContainer_disciplined hobjects nofun
  case h_24 => exact parseDefIndexField_disciplined
  case h_25 =>
    intro w w' data data' r hw h
    obtain ⟨_, -, h⟩ := bind_eq_done.1 h
    cases h

/-- The functions that call each other back keep the discipline, by induction on the
depth of the calls. -/
theorem parse_disciplined (mem : Memory) (fuel : ℕ) :
    Disciplined (fun n => [n]) (parseTermObj mem fuel) ∧ Disciplined id (parseObjectList mem fuel) ∧
      Disciplined id (parseTermList mem fuel) := by
  induction fuel with
  | zero =>
      refine ⟨fun _ _ _ _ _ _ h => ?_, fun _ _ _ _ _ _ h => ?_, fun _ _ _ _ _ _ h => ?_⟩
      · rw [parseTermObj] at h; cases h
      · rw [parseObjectList] at h; cases h
      · rw [parseTermList] at h; cases h
  | succ fuel ih =>
      obtain ⟨hobj, hobjects, hterms⟩ := ih
      refine ⟨fun w w' data data' r hw h => ?_, fun w w' data data' r hw h => ?_,
        fun w w' data data' r hw h => ?_⟩
      · rw [parseTermObj] at h
        obtain ⟨op, -, h⟩ := bind_eq_done.1 h
        by_cases hop : isType2Opcode op
        · rw [if_pos hop] at h
          exact liftTerm_disciplined hw h
        · rw [if_neg hop] at h
          obtain ⟨⟨_, data₁⟩, -, h⟩ := bind_eq_done.1 h
          exact parseObject_disciplined hterms hobjects hw h
      · rw [parseObjectList] at h
        exact parseList_parses hobj hw (.refl hw) h
      · rw [parseTermList] at h
        exact parseList_parses hobj hw (.refl hw) h

theorem Disciplined.trees {α : Type} {nodes : α → List Node} {p : Parse α} (hp : Disciplined nodes p)
    {trees : List Node} (hw : w.Sound) (h : p.trees nodes w data = .done (w', data', trees)) :
    w.Parses w' (ownersAll trees) (registeredAll trees) := by
  obtain ⟨⟨w₁, data₁, r⟩, hrun, h⟩ := bind_eq_done.1 h
  cases h
  exact hp hw hrun

/-- Every parse function keeps the discipline. -/
theorem ParseFunction.run_parses {f : ParseFunction} {trees : List Node} (hw : w.Sound)
    (h : f.run mem fuel w data = .done (w', data', trees)) :
    w.Parses w' (ownersAll trees) (registeredAll trees) := by
  obtain ⟨hobj, hobjects, hterms⟩ := parse_disciplined mem fuel
  cases f with
  | pkgLength =>
      obtain ⟨_, -, h⟩ := bind_eq_done.1 h
      cases h
      exact .refl hw
  | nameString =>
      obtain ⟨_, -, h⟩ := bind_eq_done.1 h
      cases h
      exact .refl hw
  | fieldFlags =>
      obtain ⟨_, -, h⟩ := bind_eq_done.1 h
      cases h
      exact .refl hw
  | argOrLocal => exact liftTerm_disciplined.trees hw h
  | superName => exact liftTerm_disciplined.trees hw h
  | dataObject => exact liftTerm_disciplined.trees hw h
  | dataRefObject => exact liftTerm_disciplined.trees hw h
  | target => exact liftTerm_disciplined.trees hw h
  | op arity name target => exact liftTerm_disciplined.trees hw h
  | index => exact liftTerm_disciplined.trees hw h
  | type6Opcode => exact liftTerm_disciplined.trees hw h
  | type2Opcode => exact liftTerm_disciplined.trees hw h
  | termArg => exact liftTerm_disciplined.trees hw h
  | namedField => exact parseNamedField_disciplined.trees hw h
  | fieldList => exact parseFieldList_disciplined.trees hw h
  | termObj => exact hobj.trees hw h
  | objectList => exact hobjects.trees hw h
  | termList => exact hterms.trees hw h

theorem World.Parses.ns_eq (h : w.Parses w' [] []) : w'.ns = w.ns := by
  obtain ⟨bs, hbs, hnil⟩ := h.bindings
  obtain rfl := List.map_eq_nil_iff.1 hnil
  rw [List.append_nil] at hbs
  calc w'.ns = ⟨w'.ns.curNamespace_, w'.ns.bindings_⟩ := rfl
    _ = ⟨w.ns.curNamespace_, w.ns.bindings_⟩ := by rw [h.current, hbs]

end Cases

/-- **The discipline of the parser.** For every state, every byte string and every parse
function: if it returns, with or without trees, the current scope is the one before the
call; the bindings are the old ones followed by one for each registered node of the trees;
their names are distinct and the bound nodes are alive; and destroying the trees
restores the name space. In particular, evaluating a method, which parses its body and
destroys the trees, leaves the name space as it was. -/
theorem parse_discipline (mem : Memory) (fuel : ℕ) (w : World) (hw : w.Sound) :
    (∀ (f : ParseFunction) (data : ParseState) (w' : World) (data' : ParseState) (trees : List Node),
      f.run mem fuel w data = .done (w', data', trees) →
        w'.ns.curNamespace_ = w.ns.curNamespace_ ∧
        (∃ bs, w'.ns.bindings_ = w.ns.bindings_ ++ bs ∧ bs.map Binding.n = registeredAll trees) ∧
        w'.ns.NamesDistinct ∧ (∀ b ∈ w'.ns.bindings_, (w'.nodes b.n).isSome) ∧ w'.Sound ∧
        ∃ w'', destroyAll trees w' = .done w'' ∧ w''.ns = w.ns ∧ w''.Sound) ∧
    ∀ (statements : ParseState) (w' : World), evalMethod mem fuel w statements = .done w' →
      w'.ns = w.ns ∧ w'.Sound := by
  constructor
  · intro f data w' data' trees h
    have hparses := ParseFunction.run_parses hw h
    obtain ⟨w'', hdestroy, hgone⟩ := hparses.destroyAll hw
    refine ⟨hparses.current, hparses.bindings, hparses.sound.distinct, fun b hb => ?_, hparses.sound, w'',
      hdestroy, hgone.ns_eq, hgone.sound⟩
    have halive := hparses.sound.alive hb
    rwa [World.kind, ne_eq, Option.map_eq_none_iff, ← ne_eq, Option.ne_none_iff_isSome] at halive
  · intro statements w' h
    obtain ⟨⟨w₁, _, res⟩, hrun, h⟩ := bind_eq_done.1 h
    obtain ⟨nodes, hnodes, h⟩ := bind_eq_done.1 h
    obtain rfl := requireSome_eq_done.1 hnodes
    have hparses := (parse_disciplined mem fuel).2.2 hw hrun
    obtain ⟨w₂, hdestroy, hgone⟩ := hparses.destroyAll hw
    cases h.symm.trans hdestroy
    exact ⟨hgone.ns_eq, hgone.sound⟩

/-- `Device(DEV0) { Name(ABCD, One) }` -/
def deviceCode : List UInt8 :=
  [0x5b, 0x82, 0x0b, 0x44, 0x45, 0x56, 0x30, 0x08, 0x41, 0x42, 0x43, 0x44, 0x01]

/-- The two objects of the device are bound while its tree lives. -/
theorem parse_discipline_device : ∃ w' data' trees w'',
    ParseFunction.termList.run (.ofList deviceCode) 20 ⟨⟨[], []⟩, fun _ => none, 0⟩ ⟨0, 13⟩ =
      .done (w', data', trees) ∧
    w'.ns.bindings_.map Binding.n = registeredAll trees ∧
    destroyAll trees w' = .done w'' ∧ w''.ns = ⟨[], []⟩ := by
  have hreturns : (ParseFunction.termList.run (.ofList deviceCode) 20 ⟨⟨[], []⟩, fun _ => none, 0⟩
      ⟨0, 13⟩).Returns := by decide +kernel
  obtain ⟨⟨w', data', trees⟩, h⟩ := hreturns
  obtain ⟨-, ⟨bs, hbs, hmap⟩, -, -, -, w'', hdestroy, hns, -⟩ :=
    (parse_discipline (.ofList deviceCode) 20 _ (.init [])).1 .termList ⟨0, 13⟩ w' data' trees h
  exact ⟨w', data', trees, w'', h, by rw [hbs]; exact hmap, hdestroy, hns⟩

end Attos.Aml

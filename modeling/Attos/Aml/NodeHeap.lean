import Attos.Aml.Nodes
import Attos.Lib.DoublyLinked

/-!
# Destroying parse trees

The containers that are linked to each other form lists, and a bound node is the first
one of its list (`Linked`). A tree that was parsed owns its nodes and the bindings of the
registered ones (`Owns`). Destroying it takes exactly these bindings out of the name
space and its nodes off the heap, and none of the checks in the destructors fails
(`Node.destroy_spec`, `destroyAll_spec`).
-/

namespace Attos.Aml

open Lib Outcome

namespace World

/-- The `next_` pointer of a node -/
def next (w : World) (p : NodePtr) : Option NodePtr := (w.nodes p).bind NodeInfo.next_

/-- The `prev_` pointer of a node -/
def prev (w : World) (p : NodePtr) : Option NodePtr := (w.nodes p).bind NodeInfo.prev_

/-- Whether a node is a container, if it is alive. -/
def kind (w : World) (p : NodePtr) : Option Bool := (w.nodes p).map NodeInfo.isContainer

/-- The invariant of the links between containers. -/
structure Linked (w : World) : Prop where
  /-- they form lists -/
  lists : DoublyLinked w.next w.prev
  /-- only containers are linked -/
  containers {p q : NodePtr} : w.next p = some q → w.kind p = some true ∧ w.kind q = some true
  /-- no bound node is linked behind another one -/
  head {b : Binding} : b ∈ w.ns.bindings_ → w.prev b.n = none

variable {w w' : World} {p q : NodePtr} {n : NodeInfo}

@[simp] theorem get_eq_done : w.get p = .done n ↔ w.nodes p = some n := requireSome_eq_done

theorem next_of_nodes (h : w.nodes p = some n) : w.next p = n.next_ := by
  rw [next, h]
  rfl

theorem prev_of_nodes (h : w.nodes p = some n) : w.prev p = n.prev_ := by
  rw [prev, h]
  rfl

theorem kind_of_nodes (h : w.nodes p = some n) : w.kind p = some n.isContainer := by
  rw [kind, h]
  rfl

theorem nodes_of_kind {c : Bool} (h : w.kind p = some c) :
    ∃ n, w.nodes p = some n ∧ n.isContainer = c := Option.map_eq_some_iff.1 h

theorem nodes_of_next (h : w.next p = some q) : ∃ n, w.nodes p = some n ∧ n.next_ = some q :=
  Option.bind_eq_some_iff.1 h

theorem nodes_of_prev (h : w.prev p = some q) : ∃ n, w.nodes p = some n ∧ n.prev_ = some q :=
  Option.bind_eq_some_iff.1 h

section Update

variable (w p n)

theorem next_set : (w.set p n).next = Function.update w.next p n.next_ := by
  funext q
  by_cases hq : q = p
  · subst hq; simp [next, set]
  · simp [next, set, hq]

theorem prev_set : (w.set p n).prev = Function.update w.prev p n.prev_ := by
  funext q
  by_cases hq : q = p
  · subst hq; simp [prev, set]
  · simp [prev, set, hq]

theorem kind_set : (w.set p n).kind = Function.update w.kind p (some n.isContainer) := by
  funext q
  by_cases hq : q = p
  · subst hq; simp [kind, set]
  · simp [kind, set, hq]

theorem next_kill : (w.kill p).next = Function.update w.next p none := by
  funext q
  by_cases hq : q = p
  · subst hq; simp [next, kill]
  · simp [next, kill, hq]

theorem prev_kill : (w.kill p).prev = Function.update w.prev p none := by
  funext q
  by_cases hq : q = p
  · subst hq; simp [prev, kill]
  · simp [prev, kill, hq]

theorem kind_kill : (w.kill p).kind = Function.update w.kind p none := by
  funext q
  by_cases hq : q = p
  · subst hq; simp [kind, kill]
  · simp [kind, kill, hq]

end Update

/-- A node that is not a container is in no list. -/
theorem Linked.apart (h : w.Linked) (hp : w.kind p = some false) :
    w.next p = none ∧ w.prev p = none := by
  constructor
  · cases hn : w.next p with
    | none => rfl
    | some q =>
        have := (h.containers hn).1
        rw [hp] at this
        cases this
  · cases hn : w.prev p with
    | none => rfl
    | some q =>
        have := (h.containers (h.lists.next_of_prev hn)).2
        rw [hp] at this
        cases this

/-- The end of a node that is not a container -/
theorem Linked.kill (h : w.Linked) (hp : w.kind p = some false) : (w.kill p).Linked := by
  obtain ⟨hnext, hprev⟩ := h.apart hp
  have hnext' : (w.kill p).next = w.next := by
    rw [next_kill, ← hnext]
    exact Function.update_eq_self p w.next
  have hprev' : (w.kill p).prev = w.prev := by
    rw [prev_kill, ← hprev]
    exact Function.update_eq_self p w.prev
  refine ⟨by rw [hnext', hprev']; exact h.lists, ?_, ?_⟩
  · intro q r hq
    rw [hnext'] at hq
    have hne (x : NodePtr) (hx : w.kind x = some true) : x ≠ p := by
      rintro rfl
      rw [hp] at hx
      cases hx
    obtain ⟨hkq, hkr⟩ := h.containers hq
    rw [kind_kill, Function.update_of_ne (hne q hkq), Function.update_of_ne (hne r hkr)]
    exact ⟨hkq, hkr⟩
  · intro b hb
    rw [hprev']
    exact h.head hb

/-- The container before is linked to the one behind. -/
theorem Linked.relinkPrev (h : w.Linked) (hp : w.nodes p = some n) :
    ∃ w₁, (w.kill p).relinkPrev p n = .done w₁ ∧
      w₁.next = bypass w.next p ∧ w₁.prev = Function.update w.prev p none ∧ w₁.ns = w.ns ∧
      w₁.made = w.made ∧ w₁.kind = Function.update w.kind p none := by
  have hprev := prev_of_nodes hp
  rw [World.relinkPrev]
  cases hn : n.prev_ with
  | none =>
      rw [hn] at hprev
      have hnone (q : NodePtr) : w.next q ≠ some p := by
        intro hq
        rw [h.lists.prev_of_next hq] at hprev
        cases hprev
      exact ⟨w.kill p, rfl, by rw [next_kill, bypass_of_none hnone], prev_kill w p, rfl, rfl,
        kind_kill w p⟩
  | some q =>
      rw [hn] at hprev
      have hq := h.lists.next_of_prev hprev
      have hne := (h.lists.lt_of_next hq).ne
      obtain ⟨m, hm, hmp⟩ := nodes_of_next hq
      have hm' : (w.kill p).nodes q = some m := by
        simp [World.kill, hne, hm]
      have hunique (c : NodePtr) : w.next c = some p ↔ c = q := by
        refine ⟨fun hc => ?_, fun hc => hc ▸ hq⟩
        rw [h.lists.prev_of_next hc] at hprev
        exact Option.some.inj hprev
      refine ⟨(w.kill p).set q { m with next_ := n.next_ }, ?_, ?_, ?_, rfl, rfl, ?_⟩
      · simp only [bind_eq_done, get_eq_done, require_eq_done]
        exact ⟨m, hm', ⟨⟩, hmp, rfl⟩
      · rw [next_set, next_kill, bypass_of_some hne hunique, next_of_nodes hp]
      · rw [prev_set, prev_kill]
        refine Function.update_eq_self_iff.2 ?_
        rw [Function.update_of_ne hne, prev_of_nodes hm]
      · rw [kind_set, kind_kill]
        refine Function.update_eq_self_iff.2 ?_
        rw [Function.update_of_ne hne, kind_of_nodes hm]

/-- The container behind is linked to the one before. -/
theorem Linked.relinkNext (h : w.Linked) (hp : w.nodes p = some n) {w₁ : World}
    (hprev : w₁.prev = Function.update w.prev p none) :
    ∃ w₂, w₁.relinkNext p n = .done w₂ ∧
      w₂.next = w₁.next ∧ w₂.prev = bypass w.prev p ∧ w₂.ns = w₁.ns ∧ w₂.made = w₁.made ∧
      w₂.kind = w₁.kind := by
  have hnext := next_of_nodes hp
  rw [World.relinkNext]
  cases hn : n.next_ with
  | none =>
      rw [hn] at hnext
      have hnone (q : NodePtr) : w.prev q ≠ some p := by
        intro hq
        rw [h.lists.next_of_prev hq] at hnext
        cases hnext
      exact ⟨w₁, rfl, rfl, by rw [hprev, bypass_of_none hnone], rfl, rfl, rfl⟩
  | some q =>
      rw [hn] at hnext
      have hq := h.lists.prev_of_next hnext
      have hne := (h.lists.lt_of_next hnext).ne'
      have hq₁ : w₁.prev q = some p := by rw [hprev, Function.update_of_ne hne, hq]
      obtain ⟨m, hm, hmp⟩ := nodes_of_prev hq₁
      have hunique (c : NodePtr) : w.prev c = some p ↔ c = q := by
        refine ⟨fun hc => ?_, fun hc => hc ▸ hq⟩
        rw [h.lists.next_of_prev hc] at hnext
        exact Option.some.inj hnext
      refine ⟨w₁.set q { m with prev_ := n.prev_ }, ?_, ?_, ?_, rfl, rfl, ?_⟩
      · simp only [bind_eq_done, get_eq_done, require_eq_done]
        exact ⟨m, hm, ⟨⟩, hmp, rfl⟩
      · rw [next_set]
        exact Function.update_eq_self_iff.2 (next_of_nodes hm).symm
      · rw [prev_set, hprev, bypass_of_some hne hunique, prev_of_nodes hp]
      · rw [kind_set]
        exact Function.update_eq_self_iff.2 (kind_of_nodes hm).symm

/-- The destructor of a container takes it out of its list and off the heap. -/
theorem Linked.unlink (h : w.Linked) {ignored : Bool} (hp : w.kind p = some true)
    (hhead : w.prev p = none ∨ ignored = true) :
    ∃ w', w.unlink p ignored = .done w' ∧ w'.Linked ∧ w'.ns = w.ns ∧ w'.made = w.made ∧
      w'.kind = Function.update w.kind p none := by
  obtain ⟨n, hn, -⟩ := nodes_of_kind hp
  rw [prev_of_nodes hn] at hhead
  obtain ⟨w₁, hrun₁, hnext₁, hprev₁, hns₁, hmade₁, hkind₁⟩ := h.relinkPrev hn
  obtain ⟨w₂, hrun₂, hnext₂, hprev₂, hns₂, hmade₂, hkind₂⟩ := h.relinkNext hn hprev₁
  rw [hnext₁] at hnext₂
  rw [hkind₁] at hkind₂
  have hlists := h.lists.remove p
  refine ⟨w₂, ?_, ⟨by rw [hnext₂, hprev₂]; exact hlists, ?_, ?_⟩, hns₂.trans hns₁,
    hmade₂.trans hmade₁, hkind₂⟩
  · rw [World.unlink, get_eq_done.2 hn, done_bind, require_pos hhead, done_bind, hrun₁, done_bind]
    exact hrun₂
  · intro q r hq
    rw [hnext₂] at hq
    have hr := hlists.prev_of_next hq
    rw [hkind₂, Function.update_of_ne (ne_of_bypass hq), Function.update_of_ne (ne_of_bypass hr)]
    rw [bypass, if_neg (ne_of_bypass hq)] at hq
    split at hq
    · exact ⟨(h.containers ‹_›).1, (h.containers hq).2⟩
    · exact h.containers hq
  · intro b hb
    rw [hns₂.trans hns₁] at hb
    rw [hprev₂, bypass, h.head hb]
    simp

/-- What a tree owns: its nodes, and the bindings of the registered ones, which are
together in the list of bindings. -/
structure Owns (w : World) (owners : List (NodePtr × Bool)) (registered : List NodePtr)
    (before after : List Binding) : Prop where
  /-- the links are in order -/
  linked : w.Linked
  /-- the nodes are alive -/
  kinds {o : NodePtr × Bool} : o ∈ owners → w.kind o.1 = some o.2
  /-- they are different nodes -/
  nodup : (owners.map Prod.fst).Nodup
  /-- each registered one is bound -/
  bindings : ∃ bs, w.ns.bindings_ = before ++ bs ++ after ∧ bs.map Binding.n = registered
  /-- the bindings before are those of other nodes -/
  apart {b : Binding} : b ∈ before → b.n ∉ owners.map Prod.fst

/-- The tree is destroyed: its nodes are gone, and its bindings too. -/
structure Destroyed (w w' : World) (owners : List (NodePtr × Bool)) (before after : List Binding) :
    Prop where
  /-- the links are in order -/
  linked : w'.Linked
  /-- only the bindings of the tree are gone -/
  ns : w'.ns = ⟨w.ns.curNamespace_, before ++ after⟩
  /-- only the nodes of the tree are gone -/
  kind (p : NodePtr) : w'.kind p = if p ∈ owners.map Prod.fst then none else w.kind p
  /-- no node is made -/
  made : w'.made = w.made

section Destroy

variable {w₁ w₂ : World} {os os₁ os₂ : List (NodePtr × Bool)} {rs rs₁ rs₂ : List NodePtr}
  {before after : List Binding} {b : Binding}

/-- Nothing to destroy -/
theorem Owns.nil (h : Owns w [] [] before after) : Destroyed w w [] before after := by
  obtain ⟨bs, hbs, hnil⟩ := h.bindings
  obtain rfl := List.map_eq_nil_iff.1 hnil
  rw [List.append_nil] at hbs
  exact ⟨h.linked, by rw [← hbs], fun p => by simp, rfl⟩

/-- A registration that ends takes the binding of its node out. -/
theorem Linked.release (h : w.Linked) (hbindings : w.ns.bindings_ = before ++ [b] ++ after)
    (hapart : ∀ b' ∈ before, b'.n ≠ b.n) :
    ∃ w', w.release b.n = .done w' ∧ w'.Linked ∧ w'.ns = ⟨w.ns.curNamespace_, before ++ after⟩ ∧
      w'.kind = w.kind ∧ w'.made = w.made := by
  have hfind : w.ns.findBindingOf b.n = some b := by
    rw [NameSpace.findBindingOf, hbindings, List.append_assoc, List.find?_append,
      List.find?_eq_none.2 (by simpa using hapart)]
    simp
  have herase : w.ns.bindings_.eraseP (fun b' => b'.n = b.n) = before ++ after := by
    rw [hbindings, List.append_assoc, List.eraseP_append_right _ (by simpa using hapart)]
    simp
  refine ⟨{ w with ns := ⟨w.ns.curNamespace_, before ++ after⟩ }, ?_, ⟨h.lists, h.containers, ?_⟩, rfl,
    rfl, rfl⟩
  · refine bind_eq_done.2 ⟨⟨w.ns.curNamespace_, before ++ after⟩, ?_, rfl⟩
    rw [NameSpace.destroyRegistration_eq_done]
    exact .inr ⟨b.n, rfl, by rw [hfind]; rfl, by rw [herase]⟩
  · intro b' hb'
    refine h.head (b := b') ?_
    rw [hbindings]
    simp only [List.mem_append, List.mem_singleton] at hb' ⊢
    tauto

/-- The destructor of a node that is neither a container nor has children that own a
registration -/
theorem Owns.destroy_leaf (h : Owns w [(p, false)] [p] before after) :
    ∃ w', (w.kill p).release p = .done w' ∧ Destroyed w w' [(p, false)] before after := by
  obtain ⟨bs, hbs, hp⟩ := h.bindings
  obtain ⟨b, rfl, rfl⟩ := List.map_eq_singleton_iff.1 hp
  have hkill := h.linked.kill (h.kinds (List.mem_singleton_self _))
  obtain ⟨w', hrun, hlinked, hns, hkind, hmade⟩ :=
    hkill.release hbs fun b' hb' => by simpa using h.apart hb'
  refine ⟨w', hrun, hlinked, hns, fun q => ?_, hmade⟩
  rw [hkind, kind_kill]
  by_cases hq : q = b.n
  · simp [hq]
  · simp [hq]

/-- Two trees one after the other, of which the second one is destroyed first. -/
theorem Owns.append (h : Owns w (os₁ ++ os₂) (rs₁ ++ rs₂) before after)
    (hrs : ∀ p ∈ rs₁, p ∈ os₁.map Prod.fst) :
    ∃ bs₁, Owns w os₂ rs₂ (before ++ bs₁) after ∧
      ∀ {w₁}, Destroyed w w₁ os₂ (before ++ bs₁) after → Owns w₁ os₁ rs₁ before after := by
  obtain ⟨bs, hbs, hmap⟩ := h.bindings
  obtain ⟨bs₁, bs₂, rfl, hmap₁, hmap₂⟩ := List.map_eq_append_iff.1 hmap
  have hnodup := h.nodup
  rw [List.map_append, List.nodup_append] at hnodup
  obtain ⟨hnodup₁, hnodup₂, hdisjoint⟩ := hnodup
  have happart {b : Binding} (hb : b ∈ before) :
      b.n ∉ os₁.map Prod.fst ∧ b.n ∉ os₂.map Prod.fst := by
    have := h.apart hb
    rw [List.map_append, List.mem_append] at this
    tauto
  refine ⟨bs₁, ⟨h.linked, fun ho => h.kinds (List.mem_append_right _ ho), hnodup₂,
    ⟨bs₂, by rw [hbs]; simp, hmap₂⟩, ?_⟩, ?_⟩
  · intro b hb
    rcases List.mem_append.1 hb with hb | hb
    · exact (happart hb).2
    · intro hmem
      exact hdisjoint _ (hrs _ (hmap₁ ▸ List.mem_map_of_mem hb)) _ hmem rfl
  · intro w₁ hd
    refine ⟨hd.linked, fun {o} ho => ?_, hnodup₁, ⟨bs₁, by rw [hd.ns], hmap₁⟩, fun hb => (happart hb).1⟩
    rw [hd.kind, if_neg fun hmem => hdisjoint _ (List.mem_map_of_mem ho) _ hmem rfl]
    exact h.kinds (List.mem_append_left _ ho)

theorem Destroyed.append {bs₁ : List Binding} (h₂ : Destroyed w w₁ os₂ (before ++ bs₁) after)
    (h₁ : Destroyed w₁ w₂ os₁ before after) : Destroyed w w₂ (os₁ ++ os₂) before after where
  linked := h₁.linked
  ns := by rw [h₁.ns, h₂.ns]
  kind p := by
    rw [h₁.kind, h₂.kind, List.map_append]
    by_cases hp : p ∈ os₁.map Prod.fst
    · rw [if_pos hp, if_pos (List.mem_append_left _ hp)]
    · rw [if_neg hp]
      simp only [List.mem_append, hp, false_or]
  made := h₁.made.trans h₂.made

end Destroy

end World

mutual

/-- A registered node owns its registration. -/
theorem Node.registered_owners : ∀ (n : Node) {p : NodePtr}, p ∈ n.registered → p ∈ n.owners.map Prod.fst
  | .term _, _, h => by simp [Node.registered] at h
  | .method .., _, h => by simpa [Node.registered, Node.owners] using h
  | .name .., _, h => by simpa [Node.registered, Node.owners] using h
  | .namedField .., _, h => by simpa [Node.registered, Node.owners] using h
  | .field _ _ fields, _, h => by
      rw [Node.registered] at h
      rw [Node.owners]
      exact registeredAll_owners fields h
  | .opRegion .., _, h => by simp [Node.registered] at h
  | .if_ _ ifStatements none, _, h => by
      rw [Node.registered] at h
      rw [Node.owners]
      exact registeredAll_owners ifStatements h
  | .if_ _ ifStatements (some elseStatements), _, h => by
      rw [Node.registered] at h
      rw [Node.owners, List.map_append]
      rcases List.mem_append.1 h with h | h
      · exact List.mem_append_left _ (registeredAll_owners ifStatements h)
      · exact List.mem_append_right _ (registeredAll_owners elseStatements h)
  | .while_ _ statements, _, h => by
      rw [Node.registered] at h
      rw [Node.owners]
      exact registeredAll_owners statements h
  | .mutex .., _, h => by simp [Node.registered] at h
  | .createField .., _, h => by simpa [Node.registered, Node.owners] using h
  | .container this ignored _ nodes, _, h => by
      rw [Node.registered] at h
      rw [Node.owners, List.map_append]
      rcases List.mem_append.1 h with h | h
      · exact List.mem_append_left _ (registeredAll_owners nodes h)
      · cases ignored with
        | true => simp at h
        | false => exact List.mem_append_right _ (by simpa using h)

theorem registeredAll_owners : ∀ (nodes : List Node) {p : NodePtr}, p ∈ registeredAll nodes →
    p ∈ (ownersAll nodes).map Prod.fst
  | [], _, h => by simp [registeredAll] at h
  | n :: nodes, _, h => by
      rw [registeredAll] at h
      rw [ownersAll, List.map_append]
      rcases List.mem_append.1 h with h | h
      · exact List.mem_append_left _ (n.registered_owners h)
      · exact List.mem_append_right _ (registeredAll_owners nodes h)

end

open World

/-- The destructor of a container: it leaves its list, then its nodes are destroyed, and
its registration ends last. -/
theorem World.Owns.destroy_container {w : World} {this : NodePtr} {ignored : Bool} {op : Opcode}
    {nodes : List Node} {before after : List Binding}
    (h : Owns w (Node.container this ignored op nodes).owners
      (Node.container this ignored op nodes).registered before after)
    (hnodes : ∀ {w after}, Owns w (ownersAll nodes) (registeredAll nodes) before after →
      ∃ w', destroyAll nodes w = .done w' ∧ Destroyed w w' (ownersAll nodes) before after) :
    ∃ w', (Node.container this ignored op nodes).destroy w = .done w' ∧
      Destroyed w w' (Node.container this ignored op nodes).owners before after := by
  rw [Node.owners, Node.registered] at h
  rw [Node.owners, Node.destroy]
  obtain ⟨bs, hbs, hmap⟩ := h.bindings
  obtain ⟨bs₁, bs₂, rfl, hmap₁, hmap₂⟩ := List.map_eq_append_iff.1 hmap
  have hnodup := h.nodup
  rw [List.map_append, List.nodup_append] at hnodup
  obtain ⟨hnodup₁, -, hdisjoint⟩ := hnodup
  have hthis (p : NodePtr) (hp : p ∈ (ownersAll nodes).map Prod.fst) : p ≠ this :=
    fun e => hdisjoint p hp this (by simp) e
  have hhead : w.prev this = none ∨ ignored = true := by
    cases ignored with
    | true => exact .inr rfl
    | false =>
        obtain ⟨b, rfl, rfl⟩ := List.map_eq_singleton_iff.1 hmap₂
        refine .inl (h.linked.head (b := b) ?_)
        rw [hbs]
        simp
  obtain ⟨w₁, hrun₁, hlinked₁, hns₁, hmade₁, hkind₁⟩ :=
    h.linked.unlink (h.kinds (List.mem_append_right _ (List.mem_singleton_self _))) hhead
  have howns : Owns w₁ (ownersAll nodes) (registeredAll nodes) before (bs₂ ++ after) := by
    refine ⟨hlinked₁, fun {o} ho => ?_, hnodup₁, ⟨bs₁, by rw [hns₁, hbs]; simp, hmap₁⟩, fun hb hmem => ?_⟩
    · rw [hkind₁, Function.update_of_ne (hthis _ (List.mem_map_of_mem ho))]
      exact h.kinds (List.mem_append_left _ ho)
    · refine h.apart hb ?_
      rw [List.map_append]
      exact List.mem_append_left _ hmem
  obtain ⟨w₂, hrun₂, hdestroyed⟩ := hnodes howns
  have hkind (p : NodePtr) : w₂.kind p =
      if p ∈ (ownersAll nodes ++ [(this, true)]).map Prod.fst then none else w.kind p := by
    rw [hdestroyed.kind, hkind₁]
    by_cases hp : p = this
    · subst hp
      simp
    · simp [hp]
  rw [hrun₁, done_bind, hrun₂, done_bind]
  cases ignored with
  | true =>
      obtain rfl := List.map_eq_nil_iff.1 hmap₂
      exact ⟨w₂, rfl, hdestroyed.linked, by rw [hdestroyed.ns, hns₁]; rfl, hkind,
        hdestroyed.made.trans hmade₁⟩
  | false =>
      obtain ⟨b, rfl, rfl⟩ := List.map_eq_singleton_iff.1 hmap₂
      have hbindings : w₂.ns.bindings_ = before ++ [b] ++ after := by rw [hdestroyed.ns]; simp
      have hapart (b' : Binding) (hb' : b' ∈ before) : b'.n ≠ b.n := by
        intro e
        exact h.apart hb' (by simp [e])
      obtain ⟨w₃, hrun₃, hlinked₃, hns₃, hkind₃, hmade₃⟩ := hdestroyed.linked.release hbindings hapart
      exact ⟨w₃, hrun₃, hlinked₃, by rw [hns₃, hdestroyed.ns, hns₁], by rw [hkind₃]; exact hkind,
        hmade₃.trans (hdestroyed.made.trans hmade₁)⟩

mutual

/-- **Destroying a tree** removes what it owns, and none of the checks on the way fails. -/
theorem Node.destroy_spec : ∀ (n : Node) {w : World} {before after : List Binding},
    Owns w n.owners n.registered before after →
      ∃ w', n.destroy w = .done w' ∧ Destroyed w w' n.owners before after
  | .term _, w, _, _, h => ⟨w, rfl, h.nil⟩
  | .method .., _, _, _, h => h.destroy_leaf
  | .name .., _, _, _, h => h.destroy_leaf
  | .namedField .., _, _, _, h => h.destroy_leaf
  | .field _ _ fields, _, _, _, h => by
      rw [Node.owners, Node.registered] at h
      rw [Node.owners, Node.destroy]
      exact destroyAll_spec fields h
  | .opRegion .., w, _, _, h => ⟨w, rfl, h.nil⟩
  | .if_ _ ifStatements none, _, _, _, h => by
      rw [Node.owners, Node.registered] at h
      rw [Node.owners, Node.destroy]
      exact destroyAll_spec ifStatements h
  | .if_ _ ifStatements (some elseStatements), _, _, _, h => by
      rw [Node.owners, Node.registered] at h
      rw [Node.owners, Node.destroy]
      obtain ⟨bs, helse, hif⟩ := h.append fun _ => registeredAll_owners ifStatements
      obtain ⟨w₁, hrun₁, hdestroyed₁⟩ := destroyAll_spec elseStatements helse
      obtain ⟨w₂, hrun₂, hdestroyed₂⟩ := destroyAll_spec ifStatements (hif hdestroyed₁)
      rw [hrun₁, done_bind]
      exact ⟨w₂, hrun₂, hdestroyed₁.append hdestroyed₂⟩
  | .while_ _ statements, _, _, _, h => by
      rw [Node.owners, Node.registered] at h
      rw [Node.owners, Node.destroy]
      exact destroyAll_spec statements h
  | .mutex .., w, _, _, h => ⟨w, rfl, h.nil⟩
  | .createField .., _, _, _, h => h.destroy_leaf
  | .container _ _ _ nodes, _, _, _, h => h.destroy_container fun h => destroyAll_spec nodes h

/-- The same for a list of trees, of which the last one is destroyed first. -/
theorem destroyAll_spec : ∀ (nodes : List Node) {w : World} {before after : List Binding},
    Owns w (ownersAll nodes) (registeredAll nodes) before after →
      ∃ w', destroyAll nodes w = .done w' ∧ Destroyed w w' (ownersAll nodes) before after
  | [], w, _, _, h => ⟨w, rfl, h.nil⟩
  | n :: nodes, _, _, _, h => by
      rw [ownersAll, registeredAll] at h
      rw [ownersAll, destroyAll]
      obtain ⟨bs, hrest, hfirst⟩ := h.append fun _ => n.registered_owners
      obtain ⟨w₁, hrun₁, hdestroyed₁⟩ := destroyAll_spec nodes hrest
      obtain ⟨w₂, hrun₂, hdestroyed₂⟩ := n.destroy_spec (hfirst hdestroyed₁)
      rw [hrun₁, done_bind]
      exact ⟨w₂, hrun₂, hdestroyed₁.append hdestroyed₂⟩

end

end Attos.Aml

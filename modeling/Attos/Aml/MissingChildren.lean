import Attos.Aml.ObjectSources

/-!
# Which trees have missing children

A call returns no node if and only if the calls that it tests lead to a name that is not
bound. What it returns otherwise has all of its children if and only if no call that is made
without a test leads to such a name.
-/

namespace Attos.Aml

open Lib Outcome ParseState

variable {mem : Memory} {c c' : Call} {w : World} {d : ParseState} {r : Option (List Node)} {k : Check}

/-- The calls that a call makes are smaller. -/
def Call.weight (c : Call) : ℕ := 8 * c.data.size + c.f.rank

theorem Before.weight_lt (h : Before c c') : c'.weight < c.weight := by
  have hsize : c'.data.size ≤ c.data.size := h.within.size_le
  have hrank := c'.f.rank_lt
  have hrank' := c.f.rank_lt
  have hless := h.less
  rw [Call.weight, Call.weight]
  omega

/-- **A call returns no node if and only if it fails.** -/
theorem Returns.eq_none_iff (h : Returns mem c w d r) (hc : c.data.begin_ ≤ c.data.end_) :
    r = none ↔ Fails mem c := by
  induction hn : c.weight using Nat.strong_induction_on generalizing c w d r with
  | _ n ih =>
    have hsource := h.sourced hc
    have hcall {k : Check} {c' : Call} {w' : World} {d' : ParseState} {r' : Option (List Node)}
        (hcalls : Calls mem k c c') (h' : Returns mem c' w' d' r') : r' = none ↔ Fails mem c' := by
      have hbefore := hcalls.before hc
      exact ih _ (hn ▸ hbefore.weight_lt) h' hbefore.within.le_end rfl
    constructor
    · intro hr
      obtain hname | ⟨c', w', d', hcalls, hnone⟩ := hsource.failed hr
      · exact .name hname
      · exact .call hcalls ((hcall hcalls hnone).1 rfl)
    · intro hfails
      by_contra hr
      cases hfails with
      | name hname => exact hsource.resolved hr hname
      | call hcalls hfails =>
        obtain ⟨w', d', r', h', htested⟩ := hsource.returns hr _ _ hcalls
        exact htested rfl ((hcall hcalls h').2 hfails)

theorem keeps_some {ns : List Node} (hk : k ≠ .dropped) : Keeps k (some ns) ↔ nodesComplete ns := by
  cases k with
  | dropped => exact absurd rfl hk
  | _ => rfl

/-- **A child is missing in a tree if and only if a call that is not tested fails.** -/
theorem Returns.complete_iff {ns : List Node} (h : Returns mem c w d (some ns))
    (hc : c.data.begin_ ≤ c.data.end_) : nodesComplete ns ↔ ¬ Defective mem c := by
  induction hn : c.weight using Nat.strong_induction_on generalizing c w d ns with
  | _ n ih =>
    have hsource := h.sourced hc
    have hvalid {k : Check} {c' : Call} (hcalls : Calls mem k c c') : c'.data.begin_ ≤ c'.data.end_ :=
      (hcalls.before hc).within.le_end
    have hcall {k : Check} {c' : Call} {w' : World} {d' : ParseState} {ns' : List Node}
        (hcalls : Calls mem k c c') (h' : Returns mem c' w' d' (some ns')) :
        nodesComplete ns' ↔ ¬ Defective mem c' :=
      ih _ (hn ▸ (hcalls.before hc).weight_lt) h' (hvalid hcalls) rfl
    rw [hsource.complete ns rfl]
    constructor
    · intro hkeeps hdefective
      cases hdefective with
      | here hcalls hfails =>
        obtain ⟨w', d', r', h', -⟩ := hsource.returns nofun _ _ hcalls
        cases (h'.eq_none_iff (hvalid hcalls)).2 hfails
        exact hkeeps _ _ _ _ _ hcalls h'
      | inside hcalls hk hfails hdefective =>
        obtain ⟨w', d', r', h', -⟩ := hsource.returns nofun _ _ hcalls
        cases r' with
        | none => exact hfails ((h'.eq_none_iff (hvalid hcalls)).1 rfl)
        | some ns' =>
          have hns := (keeps_some hk).1 (hkeeps _ _ _ _ _ hcalls h')
          exact (hcall hcalls h').1 hns hdefective
    · intro hdefective k c' w' d' r' hcalls h'
      cases r' with
      | none =>
        have hfails := (h'.eq_none_iff (hvalid hcalls)).1 rfl
        cases k with
        | tested =>
          obtain ⟨w₁, d₁, r₁, h₁, htested⟩ := hsource.returns nofun _ _ hcalls
          obtain ⟨-, -, rfl⟩ := h'.unique h₁ (hvalid hcalls)
          exact absurd rfl (htested rfl)
        | unchecked => exact absurd (.here hcalls hfails) hdefective
        | optional => trivial
        | dropped => trivial
      | some ns' =>
        obtain rfl | hk := eq_or_ne k .dropped
        · trivial
        · refine (keeps_some hk).2 ((hcall hcalls h').2 fun hinside => hdefective (.inside hcalls hk ?_ hinside))
          exact fun hfails => nomatch (h'.eq_none_iff (hvalid hcalls)).2 hfails

/-- **The propagation of failures.** For every call that returns, in every name space: there
is no node if and only if the call fails, that is, calls that are all tested lead from it to a
name that is not bound. If there is a node, then no child is missing in the tree, apart from
targets and else branches, if and only if the result of no call that is made without a test
and becomes a child is that of a call that fails. -/
theorem failures_propagate_iff (hc : c.data.begin_ ≤ c.data.end_) (h : Returns mem c w d r) :
    (r = none ↔ Fails mem c) ∧ ∀ ns, r = some ns → (nodesComplete ns ↔ ¬ Defective mem c) :=
  ⟨h.eq_none_iff hc, fun _ hns => (hns ▸ h).complete_iff hc⟩

/-- `DerefOf(ABCD)` -/
def derefCode : List UInt8 := [0x83, 0x41, 0x42, 0x43, 0x44]

/-- An operator without its operand, since the name is not bound -/
theorem returns_derefCode : Returns (.ofList derefCode)
    ⟨.termList, ⟨⟨[], []⟩, fun _ => none, 0⟩, ⟨0, 5⟩⟩ ⟨⟨[], []⟩, fun _ => none, 0⟩ ⟨5, 5⟩
      (some [.term (.op "deref_of" [none] none)]) := ⟨10, rfl⟩

/-- `DerefOf(Zero)` -/
theorem returns_derefZero : Returns (.ofList [0x83, 0x00])
    ⟨.termList, ⟨⟨[], []⟩, fun _ => none, 0⟩, ⟨0, 2⟩⟩ ⟨⟨[], []⟩, fun _ => none, 0⟩ ⟨2, 2⟩
      (some [.term (.op "deref_of" [some (.const 0 1)] none)]) := ⟨10, rfl⟩

/-- The call for the name is the one that fails, and no call fails for the constant. -/
theorem failures_propagate_derefCode :
    Defective (.ofList derefCode) ⟨.termList, ⟨⟨[], []⟩, fun _ => none, 0⟩, ⟨0, 5⟩⟩ ∧
    ¬ Fails (.ofList [0x83, 0x00]) ⟨.termList, ⟨⟨[], []⟩, fun _ => none, 0⟩, ⟨0, 2⟩⟩ ∧
    ¬ Defective (.ofList [0x83, 0x00]) ⟨.termList, ⟨⟨[], []⟩, fun _ => none, 0⟩, ⟨0, 2⟩⟩ := by
  obtain ⟨-, hname⟩ := failures_propagate_iff (by decide) returns_derefCode
  obtain ⟨hfails, hzero⟩ := failures_propagate_iff (by decide) returns_derefZero
  refine ⟨?_, fun h => (nomatch hfails.mpr h), (hzero _ rfl).mp ⟨⟨⟨trivial, trivial⟩, trivial⟩, trivial⟩⟩
  by_contra hnot
  exact ((hname _ rfl).mpr hnot).1.1.1

/-- A mandatory child is missing in what `parse_term_list` returns. -/
theorem derefCode_incomplete : ¬ ∀ w d ns, Returns (.ofList derefCode)
    ⟨.termList, ⟨⟨[], []⟩, fun _ => none, 0⟩, ⟨0, 5⟩⟩ w d (some ns) → nodesComplete ns := by
  intro h
  exact (h _ _ _ returns_derefCode).1.1.1

end Attos.Aml

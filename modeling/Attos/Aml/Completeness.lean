import Attos.Aml.PackageExtents

/-!
# Trees with missing children

A parse function that cannot resolve a name returns no node (`Unresolved`), and so does a
function that tests what it gets from a call that returned none (`Fails`). Some calls are
made without a test; then the node that is returned has no child there (`Defective`). A child
may be missing as the target of an operator and as an else branch only (`Complete`).
-/

namespace Attos.Aml

open Lib Outcome ParseState

/-! ## Complete trees -/

mutual

/-- No child of the term is missing, except for targets. -/
def Term.Complete : Term → Prop
  | .simple _ => True
  | .text _ _ => True
  | .const _ _ => True
  | .buffer bufferSize _ => operandComplete bufferSize
  | .package nodes => termsComplete nodes
  | .op _ args target => operandsComplete args ∧ targetComplete target
  | .methodCall _ args => termsComplete args

/-- The child is there, and no child in it is missing. -/
def operandComplete : Option Term → Prop
  | none => False
  | some t => t.Complete

/-- No child is missing in the target, if there is one. -/
def targetComplete : Option Term → Prop
  | none => True
  | some t => t.Complete

/-- No child is missing in some terms. -/
def termsComplete : List Term → Prop
  | [] => True
  | t :: ts => t.Complete ∧ termsComplete ts

/-- No operand is missing. -/
def operandsComplete : List (Option Term) → Prop
  | [] => True
  | t :: ts => operandComplete t ∧ operandsComplete ts

end

mutual

/-- No child of the node is missing, except for targets and else branches. -/
def Node.Complete : Node → Prop
  | .term t => t.Complete
  | .method _ _ _ _ => True
  | .name _ _ obj => obj.Complete
  | .namedField _ _ _ => True
  | .field _ _ fields => nodesComplete fields
  | .opRegion _ _ offset len => operandComplete offset ∧ operandComplete len
  | .if_ predicate ifStatements none => predicate.Complete ∧ nodesComplete ifStatements
  | .if_ predicate ifStatements (some elseStatements) =>
      predicate.Complete ∧ nodesComplete ifStatements ∧ nodesComplete elseStatements
  | .while_ predicate statements => predicate.Complete ∧ nodesComplete statements
  | .mutex _ _ => True
  | .createField _ _ _ buffer index => operandComplete buffer ∧ operandComplete index
  | .container _ _ _ nodes => nodesComplete nodes

/-- No child is missing in some trees. -/
def nodesComplete : List Node → Prop
  | [] => True
  | n :: nodes => n.Complete ∧ nodesComplete nodes

end

theorem termsComplete_append (l₁ l₂ : List Term) :
    termsComplete (l₁ ++ l₂) ↔ termsComplete l₁ ∧ termsComplete l₂ := by
  induction l₁ with
  | nil => simp [termsComplete]
  | cons t l₁ ih => rw [List.cons_append, termsComplete, termsComplete, ih, and_assoc]

theorem nodesComplete_append (l₁ l₂ : List Node) :
    nodesComplete (l₁ ++ l₂) ↔ nodesComplete l₁ ∧ nodesComplete l₂ := by
  induction l₁ with
  | nil => simp [nodesComplete]
  | cons n l₁ ih => rw [List.cons_append, nodesComplete, nodesComplete, ih, and_assoc]

theorem nodesComplete_snoc {nodes : List Node} {n : Node} (h : nodesComplete nodes) (hn : n.Complete) :
    nodesComplete (nodes ++ [n]) := (nodesComplete_append nodes [n]).2 ⟨h, hn, trivial⟩

theorem operandsComplete_map_some (ts : List Term) : operandsComplete (ts.map some) ↔ termsComplete ts := by
  induction ts with
  | nil => rfl
  | cons t ts ih => rw [List.map_cons, operandsComplete, termsComplete, ih, operandComplete]

/-! ## Calls that return no node -/

/-- The call is for a name that is not bound. -/
def Unresolved (mem : Memory) (c : Call) : Prop :=
  c.f = .type2Opcode ∧ ∃ b name d, c.data.peek mem = done b ∧ isNameStringStart b ∧
    parseNameString mem c.data = done (d, name) ∧ c.w.ns.lookupNode name = done none

/-- The call is for a name that is not bound, or it makes such a call and tests it. -/
inductive Fails (mem : Memory) : Call → Prop where
  /-- the name is not bound -/
  | name {c : Call} : Unresolved mem c → Fails mem c
  /-- a call that is tested -/
  | call {c c' : Call} : Calls mem .tested c c' → Fails mem c' → Fails mem c

/-- A call for something that becomes a child returns no node, and it is not tested. -/
inductive Defective (mem : Memory) : Call → Prop where
  /-- the child is missing -/
  | here {c c' : Call} : Calls mem .unchecked c c' → Fails mem c' → Defective mem c
  /-- it is missing in a child -/
  | inside {k : Check} {c c' : Call} : Calls mem k c c' → k ≠ .dropped → ¬ Fails mem c' →
      Defective mem c' → Defective mem c

/-- What a call returns is a child without missing children in it. -/
def Keeps (k : Check) (r : Option (List Node)) : Prop :=
  match k, r with
  | .dropped, _ => True
  | .optional, none => True
  | _, none => False
  | _, some ns => nodesComplete ns

section Keeps

variable (ns : List Node) (t : Option Term) (t' : Term)

@[simp] theorem nodesComplete_nil : nodesComplete [] := trivial

@[simp] theorem nodesComplete_cons (n : Node) : nodesComplete (n :: ns) ↔ n.Complete ∧ nodesComplete ns :=
  Iff.rfl

@[simp] theorem complete_term : (Node.term t').Complete ↔ t'.Complete := Iff.rfl

@[simp] theorem complete_op (name : String) (args : List (Option Term)) :
    (Term.op name args t).Complete ↔ operandsComplete args ∧ targetComplete t := Iff.rfl

@[simp] theorem operandsComplete_nil : operandsComplete [] := trivial

@[simp] theorem operandsComplete_cons (args : List (Option Term)) :
    operandsComplete (t :: args) ↔ operandComplete t ∧ operandsComplete args := Iff.rfl

@[simp] theorem operandComplete_some : operandComplete (some t') ↔ t'.Complete := Iff.rfl

@[simp] theorem targetComplete_none : targetComplete none := trivial

@[simp] theorem targetComplete_some : targetComplete (some t') ↔ t'.Complete := Iff.rfl

@[simp] theorem complete_simple (op : Opcode) : (Term.simple op).Complete := trivial

@[simp] theorem complete_text (op : Opcode) (name : Name) : (Term.text op name).Complete := trivial

@[simp] theorem complete_const (value size : ℕ) : (Term.const value size).Complete := trivial

@[simp] theorem keeps_dropped (r : Option (List Node)) : Keeps .dropped r := trivial

@[simp] theorem keeps_tested : Keeps .tested (some ns) ↔ nodesComplete ns := Iff.rfl

@[simp] theorem keeps_tested_term : Keeps .tested (termTrees (some t')) ↔ t'.Complete := and_iff_left trivial

@[simp] theorem keeps_unchecked : Keeps .unchecked (termTrees t) ↔ operandComplete t := by
  cases t with
  | none => rfl
  | some t => exact and_iff_left trivial

@[simp] theorem keeps_optional : Keeps .optional (termTrees t) ↔ targetComplete t := by
  cases t with
  | none => rfl
  | some t => exact and_iff_left trivial

end Keeps

/-- What is known of the calls that a call makes when it returns. -/
structure Sourced (mem : Memory) (c : Call) (r : Option (List Node)) : Prop where
  /-- there is no node only if a name is not bound, or a call that is tested returned none -/
  failed : r = none → Unresolved mem c ∨
    ∃ c' w' d', Calls mem .tested c c' ∧ Returns mem c' w' d' none
  /-- the name of the call is bound, if there is a node -/
  resolved : r ≠ none → ¬ Unresolved mem c
  /-- all calls return then -/
  returns : r ≠ none → ∀ k c', Calls mem k c c' →
    ∃ w' d' r', Returns mem c' w' d' r' ∧ (k = .tested → r' ≠ none)
  /-- no child is missing in the trees if and only if none is missing in those of the calls -/
  complete : ∀ ns, r = some ns → (nodesComplete ns ↔
    ∀ k c' w' d' r', Calls mem k c c' → Returns mem c' w' d' r' → Keeps k r')

variable {mem : Memory} {c c' : Call} {w w' : World} {d d' data : ParseState} {r : Option (List Node)}
  {k : Check} {ps : List Piece} {f : ParseFunction} {fuel n : ℕ} {t : Option Term}

/-! ## The calls among pieces -/

/-- The results of the calls among some pieces. -/
inductive Ran (mem : Memory) : List Piece → World → ParseState → List (Check × Option (List Node)) → Prop where
  /-- there are no more pieces -/
  | nil {w : World} {d : ParseState} : Ran mem [] w d []
  /-- a call -/
  | call {f : ParseFunction} {k : Check} {ps : List Piece} {w w' : World} {d d' : ParseState}
      {r : Option (List Node)} {rs : List (Check × Option (List Node))} : Returns mem ⟨f, w, d⟩ w' d' r →
        (k = .tested → r ≠ none) → Ran mem ps w' d' rs → Ran mem (.call f k :: ps) w d ((k, r) :: rs)
  /-- bytes -/
  | bytes {n : ℕ} {ps : List Piece} {w : World} {d d' : ParseState}
      {rs : List (Check × Option (List Node))} : d.skip n = done d' → Ran mem ps w d' rs →
        Ran mem (.bytes n :: ps) w d rs
  /-- a scope -/
  | scope {ps : List Piece} {w w' : World} {d d' : ParseState} {name : Name} {reg : ScopeRegistration}
      {rs : List (Check × Option (List Node))} : parseNameString mem d = done (d', name) →
        w.openScope name = done (reg, w') → Ran mem ps w' d' rs → Ran mem (.scope :: ps) w d rs

theorem returns_nameString {name : Name} (w : World) (h : parseNameString mem d = done (d', name)) :
    Returns mem ⟨.nameString, w, d⟩ w d' (some []) := by
  refine ⟨0, ?_⟩
  simp only [ParseFunction.result, h, done_bind]
  rfl

/-- A call that returns trees without missing children -/
def Harmless (mem : Memory) (c : Call) : Prop := ∃ w d ns, Returns mem c w d (some ns) ∧ nodesComplete ns

theorem harmless_nameString {name : Name} (h : parseNameString mem d = done (d', name)) :
    Harmless mem ⟨.nameString, w, d⟩ := ⟨w, d', [], returns_nameString w h, trivial⟩

variable {rs : List (Check × Option (List Node))}

/-- A call among the pieces has one of the results, or it is for a name. -/
theorem Ran.among (h : Ran mem ps w d rs) (hd : d.begin_ ≤ d.end_) (hc : Among mem ps w d k c) :
    (∃ w' d' r, Returns mem c w' d' r ∧ (k, r) ∈ rs) ∨ Harmless mem c := by
  induction h with
  | nil => cases hc
  | call hreturns htested _ ih =>
    cases hc with
    | here => exact .inl ⟨_, _, _, hreturns, List.mem_cons_self ..⟩
    | call hreturns' _ hc =>
      obtain ⟨rfl, rfl, rfl⟩ := hreturns.unique hreturns' hd
      refine (ih (hreturns.extent hd).within.le_end hc).imp_left fun ⟨w', d', r, h, hmem⟩ => ?_
      exact ⟨w', d', r, h, List.mem_cons_of_mem _ hmem⟩
  | bytes hskip _ ih =>
    cases hc with
    | bytes hskip' hc =>
      cases hskip.symm.trans hskip'
      exact ih (skip_spec hskip hd).1.le_end hc
  | scope hparse hopen _ ih =>
    cases hc with
    | name => exact .inr (harmless_nameString hparse)
    | scope hparse' hopen' hc =>
      cases hparse.symm.trans hparse'
      cases hopen.symm.trans hopen'
      exact ih (shorter_of_parseNameString hd hparse).le_end hc

/-- A result is that of a call among the pieces. -/
theorem Ran.result (h : Ran mem ps w d rs) (hmem : (k, r) ∈ rs) :
    ∃ c w' d', Among mem ps w d k c ∧ Returns mem c w' d' r := by
  induction h with
  | nil => cases hmem
  | call hreturns htested _ ih =>
    obtain hmem | hmem := List.mem_cons.1 hmem
    · cases hmem
      exact ⟨_, _, _, .here, hreturns⟩
    · obtain ⟨c, w', d', hc, h⟩ := ih hmem
      exact ⟨c, w', d', .call hreturns htested hc, h⟩
  | bytes hskip _ ih =>
    obtain ⟨c, w', d', hc, h⟩ := ih hmem
    exact ⟨c, w', d', .bytes hskip hc, h⟩
  | scope hparse hopen _ ih =>
    obtain ⟨c, w', d', hc, h⟩ := ih hmem
    exact ⟨c, w', d', .scope hparse hopen hc, h⟩

theorem Ran.tested (h : Ran mem ps w d rs) (hmem : (.tested, r) ∈ rs) : r ≠ none := by
  induction h with
  | nil => cases hmem
  | call _ htested _ ih =>
    obtain hmem | hmem := List.mem_cons.1 hmem
    · cases hmem
      exact htested rfl
    · exact ih hmem
  | bytes _ _ ih => exact ih hmem
  | scope _ _ _ ih => exact ih hmem

/-! ## Ways to return -/

section Sources

variable {ns : List Node} (hun : ¬ Unresolved mem c) (hc : c.data.begin_ ≤ c.data.end_)

/-- A call that is tested returned no node. -/
theorem Sourced.of_failed (hcalls : Calls mem .tested c c') (h : Returns mem c' w d none) :
    Sourced mem c none :=
  ⟨fun _ => .inr ⟨c', w, d, hcalls, h⟩, fun h => absurd rfl h, fun h => absurd rfl h, nofun⟩

theorem keeps_of_complete (hns : nodesComplete ns) : Keeps k (some ns) := by
  cases k with
  | dropped => trivial
  | _ => exact hns

/-- What a harmless call returns -/
theorem Harmless.keeps (h : Harmless mem c) (hc : c.data.begin_ ≤ c.data.end_) (hreturns : Returns mem c w d r) :
    Keeps k r := by
  obtain ⟨_, _, ns, h, hns⟩ := h
  obtain ⟨-, -, rfl⟩ := h.unique hreturns hc
  exact keeps_of_complete hns

theorem Harmless.returns (h : Harmless mem c) : ∃ w d r, Returns mem c w d r ∧ (k = .tested → r ≠ none) := by
  obtain ⟨w, d, ns, h, -⟩ := h
  exact ⟨w, d, some ns, h, fun _ => nofun⟩

include hun

include hc in
/-- The result is that of the only call that is made. -/
theorem Sourced.same (hcalls : Calls mem .tested c c')
    (honly : ∀ k c'', Calls mem k c c'' → k = .tested ∧ c'' = c') (h : Returns mem c' w d r) :
    Sourced mem c r where
  failed hr := .inr ⟨c', w, d, hcalls, hr ▸ h⟩
  resolved _ := hun
  returns hr k c'' hcalls' := by
    obtain ⟨rfl, rfl⟩ := honly k c'' hcalls'
    exact ⟨w, d, r, h, fun _ => hr⟩
  complete ns hns := by
    constructor
    · intro hcomplete k c'' w' d' r' hcalls' h'
      obtain ⟨rfl, rfl⟩ := honly k c'' hcalls'
      obtain ⟨-, -, rfl⟩ := h.unique h' (hcalls.before hc).within.le_end
      rw [hns]
      exact hcomplete
    · intro hkeeps
      have hkept := hkeeps .tested c' w d r hcalls h
      rwa [hns] at hkept

include hc in
/-- Only harmless calls are made. -/
theorem Sourced.of_harmless (honly : ∀ k c', Calls mem k c c' → Harmless mem c')
    (hns : nodesComplete ns) : Sourced mem c (some ns) where
  failed := nofun
  resolved _ := hun
  returns _ k c' hcalls := (honly k c' hcalls).returns
  complete ns' hns' := by
    cases hns'
    refine iff_of_true hns fun k c' w' d' r' hcalls h' => ?_
    exact (honly k c' hcalls).keeps (hcalls.before hc).within.le_end h'

include hc in
/-- The results of the calls, apart from harmless ones -/
theorem Sourced.of_results (rs : List (Check × Option (List Node)))
    (hin : ∀ kr ∈ rs, ∃ c' w' d', Calls mem kr.1 c c' ∧ Returns mem c' w' d' kr.2)
    (htested : ∀ r, (.tested, r) ∈ rs → r ≠ none)
    (hout : ∀ k c', Calls mem k c c' → (∃ w' d' r, Returns mem c' w' d' r ∧ (k, r) ∈ rs) ∨ Harmless mem c')
    (hns : nodesComplete ns ↔ ∀ kr ∈ rs, Keeps kr.1 kr.2) : Sourced mem c (some ns) where
  failed := nofun
  resolved _ := hun
  returns _ k c' hcalls := by
    obtain ⟨w', d', r', h, hmem⟩ | h := hout k c' hcalls
    · exact ⟨w', d', r', h, fun hk => htested r' (hk ▸ hmem)⟩
    · exact h.returns
  complete ns' hns' := by
    cases hns'
    rw [hns]
    constructor
    · intro hkeeps k c' w' d' r' hcalls h'
      have hvalid := (hcalls.before hc).within.le_end
      obtain ⟨w₁, d₁, r₁, h, hmem⟩ | h := hout k c' hcalls
      · obtain ⟨-, -, rfl⟩ := h.unique h' hvalid
        exact hkeeps (k, r₁) hmem
      · exact h.keeps hvalid h'
    · rintro hkeeps ⟨k, r⟩ hmem
      obtain ⟨c', w', d', hcalls, h⟩ := hin (k, r) hmem
      exact hkeeps k c' w' d' r hcalls h

include hc in
/-- Pieces were parsed, and maybe the length of a package. -/
theorem Sourced.of_pieces (hd : d.begin_ ≤ d.end_) (hin : ∀ k c', Among mem ps w d k c' → Calls mem k c c')
    (hout : ∀ k c', Calls mem k c c' → Among mem ps w d k c' ∨ Harmless mem c') (hran : Ran mem ps w d rs)
    (hns : nodesComplete ns ↔ ∀ kr ∈ rs, Keeps kr.1 kr.2) : Sourced mem c (some ns) := by
  refine .of_results hun hc rs (fun kr hmem => ?_) (fun r => hran.tested) (fun k c' hcalls => ?_) hns
  · obtain ⟨c', w', d', hamong, h⟩ := hran.result hmem
    exact ⟨c', w', d', hin kr.1 c' hamong, h⟩
  · obtain hamong | h := hout k c' hcalls
    · exact hran.among hd hamong
    · exact .inr h

end Sources

end Attos.Aml

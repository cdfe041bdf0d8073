import Attos.Aml.NameSpace
import Attos.Lib.Scopes

/-!
# Name resolution

What a name denotes in a scope by the rules of ACPI (`AcpiName.resolve`), compared
with what `lookup_node` finds. Objects are bound to their absolute names, but the
lookup of a path with a parent prefix or with several segments takes the path for
an absolute name. The result is right when the scope that the path is relative to is
the root, or when neither the path nor the absolute name is bound
(`lookup_node_resolves`).
-/

namespace Attos.Aml

open Lib Outcome

/-- A name segment, `valid_nameseg`. -/
structure NameSeg : Type where
  /-- the first character -/
  lead : UInt8
  /-- the second character -/
  second : UInt8
  /-- the third character -/
  third : UInt8
  /-- the last character -/
  fourth : UInt8
  /-- the characters are the ones that a name may have -/
  valid : isLeadNameChar lead ∧ isNameChar second ∧ isNameChar third ∧ isNameChar fourth

/-- The name of a segment. -/
def NameSeg.bytes (seg : NameSeg) : Name := [seg.lead, seg.second, seg.third, seg.fourth]

/-- A sequence of segments: the absolute name of a scope or of an object, or a path
relative to a scope. -/
abbrev NamePath := List NameSeg

/-- The name of a path. -/
def NamePath.bytes (path : NamePath) : Name := path.flatMap NameSeg.bytes

/-- The forms of a name that is used. -/
inductive AcpiName : Type where
  /-- a single segment -/
  | single (seg : NameSeg)
  /-- `levels + 1` parent prefixes and a path -/
  | parent (levels : ℕ) (path : NamePath)
  /-- a path of two or more segments -/
  | multi (first second : NameSeg) (rest : NamePath)
  /-- a root character and a path -/
  | rooted (path : NamePath)

namespace AcpiName

/-- The characters of a name. -/
def bytes : AcpiName → Name
  | single seg => seg.bytes
  | parent levels path => List.replicate (levels + 1) parentPrefixChar ++ path.bytes
  | multi first second rest => NamePath.bytes (first :: second :: rest)
  | rooted path => rootChar :: path.bytes

/-- The scope a number of levels around another one. -/
def ancestor (scope : NamePath) (levels : ℕ) : NamePath := scope.take (scope.length - levels)

/-- The binding of an absolute path. -/
def bound (ns : NameSpace) (path : NamePath) : Option Binding := ns.findBinding path.bytes

/-- **The resolution of a name used in a scope.** A single segment is searched for
upwards, a path is relative to the scope, or to one of the scopes around it, or to the
root. There is no resolution when a parent prefix leads out of the root. -/
def resolve (ns : NameSpace) (scope : NamePath) : AcpiName → Outcome (Option Binding)
  | single seg => pure (searchScopes (bound ns) scope [seg])
  | parent levels path => do
      require (levels + 1 ≤ scope.length)
      pure (bound ns (ancestor scope (levels + 1) ++ path))
  | multi first second rest => pure (bound ns (scope ++ first :: second :: rest))
  | rooted path => pure (bound ns path)

/-- Taking the path of a name for an absolute one makes no difference. -/
def SameFromRoot (ns : NameSpace) (scope : NamePath) : AcpiName → Prop
  | single _ => True
  | parent levels path => scope.length ≤ levels + 1 ∨
      bound ns path = none ∧ bound ns (ancestor scope (levels + 1) ++ path) = none
  | multi first second rest => scope = [] ∨
      bound ns (first :: second :: rest) = none ∧ bound ns (scope ++ first :: second :: rest) = none
  | rooted _ => True

end AcpiName

/-- A lookup of the name ends with the result. -/
def NameSpace.LooksUp (ns : NameSpace) (name : Name) (r : Outcome (Option Binding)) : Prop :=
  ns.lookupBinding name = r ∧ ns.lookupNode name = (do let b ← r; pure (b.map Binding.n))

/-- In the scope, an object was registered under the name, and it is still bound when
the scope is current. Whatever was opened for its contents is closed when its node is
provided. -/
inductive Registered (scope : NamePath) (name : AcpiName) (b : Binding) (ns : NameSpace) : Prop where
  /-- the history of the registration -/
  | intro {ns₀ ns₁ ns₂ ns₃ : NameSpace} {reg reg' : ScopeRegistration} {op : Opcode}
      (distinct : ns₀.NamesDistinct)
      (current : ns₀.curNamespace_ = scope.bytes)
      (opened : ns₀.openScope name.bytes = .done (reg, ns₁))
      (contents : NameSpace.Later ns₁ ns₂)
      (closed : ns₂.curNamespace_ = ns₁.curNamespace_)
      (live : op ≠ .deadScope)
      (provided : ns₂.provide reg b.n op = .done (reg', ns₃))
      (named : b.name = ns₁.curNamespace_)
      (later : NameSpace.Later ns₃ ns)
      (again : ns.curNamespace_ = scope.bytes)
      (still : b ∈ ns.bindings_)

section Paths

variable {scope path : NamePath} {seg : NameSeg}

theorem isLeadNameChar.ne_root {c : UInt8} (h : isLeadNameChar c) : c ≠ rootChar := by
  rintro rfl
  revert h
  decide

theorem isLeadNameChar.ne_parent {c : UInt8} (h : isLeadNameChar c) : c ≠ parentPrefixChar := by
  rintro rfl
  revert h
  decide

theorem isLeadNameChar.ne_zero {c : UInt8} (h : isLeadNameChar c) : c ≠ 0 := by
  rintro rfl
  revert h
  decide

namespace NamePath

@[simp] theorem bytes_nil : NamePath.bytes [] = [] := rfl

@[simp] theorem bytes_cons : NamePath.bytes (seg :: path) = seg.bytes ++ path.bytes := rfl

@[simp] theorem bytes_append : NamePath.bytes (scope ++ path) = scope.bytes ++ path.bytes :=
  List.flatMap_append

@[simp] theorem bytes_length : path.bytes.length = 4 * path.length := by
  induction path with
  | nil => rfl
  | cons seg path ih => simp [NameSeg.bytes, ih]; omega

end NamePath

theorem parentScope_nil : parentScope (NamePath.bytes []) = none := rfl

theorem parentScope_concat : parentScope (NamePath.bytes (scope ++ [seg])) = some scope.bytes := by
  simp [parentScope, NameSeg.bytes]

theorem ancestor_zero : AcpiName.ancestor scope 0 = scope := List.take_length

theorem ancestor_concat {levels : ℕ} :
    AcpiName.ancestor (scope ++ [seg]) (levels + 1) = AcpiName.ancestor scope levels := by
  simp only [AcpiName.ancestor, List.length_append, List.length_singleton, Nat.add_sub_add_right]
  exact List.take_append_of_le_length (Nat.sub_le _ _)

end Paths

section Lookup

variable {ns : NameSpace} {scope path : NamePath} {seg first second : NameSeg} {levels rounds : ℕ}
  {name : AcpiName} {b : Binding}

open AcpiName

theorem skipParents_bytes {cur : Name} : skipParents cur path.bytes = .done (cur, path.bytes) := by
  cases path with
  | nil => rfl
  | cons seg path => exact if_neg seg.valid.1.ne_parent

/-- Every parent prefix leads one scope outwards, until there is none. -/
theorem skipParents_replicate :
    skipParents scope.bytes (List.replicate levels parentPrefixChar ++ path.bytes) =
      (do require (levels ≤ scope.length); pure ((ancestor scope levels).bytes, path.bytes)) := by
  induction levels generalizing scope with
  | zero =>
      rw [List.replicate_zero, List.nil_append, skipParents_bytes, ancestor_zero]
      rfl
  | succ levels ih =>
      rw [List.replicate_succ, List.cons_append, skipParents, if_pos rfl]
      obtain rfl | ⟨scope, seg, rfl⟩ := List.eq_nil_or_concat' scope
      · rw [parentScope_nil, require_neg (by simp)]
        rfl
      · rw [parentScope_concat, ancestor_concat]
        simp only [ih, List.length_append, List.length_singleton, Nat.add_le_add_iff_right]

/-- The loop over the scopes is the search from the inside out. -/
theorem lookupUpwards_bytes (h : scope.length ≤ rounds) :
    ns.lookupUpwards seg.bytes rounds scope.bytes = searchScopes (bound ns) scope [seg] := by
  have hname (scope : NamePath) : relative scope.bytes seg.bytes = (scope ++ [seg]).bytes := by
    simp [relative]
  induction scope using List.reverseRecOn generalizing rounds with
  | nil =>
      rw [searchScopes_nil, NameSpace.lookupUpwards.eq_def, hname, List.nil_append, bound, parentScope_nil]
      cases ns.findBinding (NamePath.bytes [seg]) with
      | none => cases rounds <;> rfl
      | some b => rfl
  | append_singleton scope outer ih =>
      obtain ⟨rounds, rfl⟩ : ∃ r, rounds = r + 1 := ⟨rounds - 1, by simp at h; omega⟩
      rw [searchScopes_concat, NameSpace.lookupUpwards.eq_def, hname, bound, parentScope_concat]
      cases ns.findBinding (NamePath.bytes (scope ++ [outer] ++ [seg])) with
      | some b => rfl
      | none => exact ih (by simpa using h)

variable (hcur : ns.curNamespace_ = scope.bytes)

include hcur in
/-- `lookup_binding` for a single segment -/
theorem lookupBinding_single :
    ns.lookupBinding seg.bytes = .done (searchScopes (bound ns) scope [seg]) := by
  have hroot : seg.bytes.head? ≠ some rootChar := by simpa [NameSeg.bytes] using seg.valid.1.ne_root
  have hparent : seg.bytes.head? ≠ some parentPrefixChar := by
    simpa [NameSeg.bytes] using seg.valid.1.ne_parent
  rw [NameSpace.lookupBinding, if_neg hroot, if_neg hparent, if_neg (by simp [NameSeg.bytes]), hcur,
    lookupUpwards_bytes (by simp; omega)]
  rfl

include hcur in
/-- `lookup_binding` with parent prefixes: the scope that they lead to is computed but
not used. -/
theorem lookupBinding_parent : ns.lookupBinding (AcpiName.parent levels path).bytes =
    (do require (levels + 1 ≤ scope.length); pure (bound ns path)) := by
  rw [NameSpace.lookupBinding, AcpiName.bytes, if_neg (by simp [List.replicate_succ, rootChar, parentPrefixChar]),
    if_pos (by simp [List.replicate_succ]), hcur, skipParents_replicate]
  by_cases h : levels + 1 ≤ scope.length
  · simp only [require_pos h, done_bind, pure_eq, bound]
  · simp only [require_neg h, abort_bind]

/-- `lookup_binding` for several segments -/
theorem lookupBinding_multi : ns.lookupBinding (AcpiName.multi first second path).bytes =
    .done (bound ns (first :: second :: path)) := by
  have hroot : (AcpiName.multi first second path).bytes.head? ≠ some rootChar := by
    simpa [AcpiName.bytes, NameSeg.bytes] using first.valid.1.ne_root
  have hparent : (AcpiName.multi first second path).bytes.head? ≠ some parentPrefixChar := by
    simpa [AcpiName.bytes, NameSeg.bytes] using first.valid.1.ne_parent
  have hfifth : (AcpiName.multi first second path).bytes.getD 4 0 ≠ 0 := by
    simpa [AcpiName.bytes, NameSeg.bytes] using second.valid.1.ne_zero
  rw [NameSpace.lookupBinding, if_neg hroot, if_neg hparent, if_pos hfifth]
  rfl

/-- `lookup_binding` for a rooted path -/
theorem lookupBinding_rooted :
    ns.lookupBinding (AcpiName.rooted path).bytes = .done (bound ns path) := if_pos rfl

/-- Two paths of different lengths have the same binding only if neither has one. -/
theorem bound_eq_append_iff :
    bound ns path = bound ns (scope ++ path) ↔
      scope = [] ∨ bound ns path = none ∧ bound ns (scope ++ path) = none := by
  constructor
  · intro h
    cases hb : bound ns path with
    | none => exact .inr ⟨rfl, hb ▸ h.symm⟩
    | some b =>
        have hname := NameSpace.findBinding_name hb
        rw [NameSpace.findBinding_name (h.symm.trans hb)] at hname
        have hlen := congrArg List.length hname
        simp only [NamePath.bytes_length, List.length_append] at hlen
        exact .inl (List.length_eq_zero_iff.1 (by omega))
  · rintro (rfl | ⟨h, h'⟩)
    · rfl
    · rw [h, h']

include hcur in
theorem lookupBinding_eq_resolve :
    ns.lookupBinding name.bytes = name.resolve ns scope ↔ name.SameFromRoot ns scope := by
  cases name with
  | single seg =>
      rw [AcpiName.bytes, lookupBinding_single hcur]
      exact ⟨fun _ => trivial, fun _ => rfl⟩
  | parent levels path =>
      rw [lookupBinding_parent hcur, AcpiName.resolve, SameFromRoot]
      by_cases h : levels + 1 ≤ scope.length
      · have hroot : ancestor scope (levels + 1) = [] ↔ scope.length ≤ levels + 1 := by
          rw [ancestor, ← List.length_eq_zero_iff, List.length_take]
          omega
        simp only [require_pos h, done_bind, pure_eq, done.injEq, bound_eq_append_iff, hroot]
      · simp only [require_neg h, abort_bind, true_iff]
        exact .inl (by omega)
  | multi first second rest =>
      rw [lookupBinding_multi]
      simp only [AcpiName.resolve, SameFromRoot, pure_eq, done.injEq, bound_eq_append_iff]
  | rooted path =>
      rw [lookupBinding_rooted]
      exact ⟨fun _ => trivial, fun _ => rfl⟩

theorem looksUp_iff {r : Outcome (Option Binding)} :
    ns.LooksUp name.bytes r ↔ ns.lookupBinding name.bytes = r := by
  refine ⟨And.left, fun h => ⟨h, ?_⟩⟩
  rw [NameSpace.lookupNode, h]

theorem bound_of_name (hname : b.name = path.bytes) (h : ns.findBinding b.name = some b) :
    bound ns path = some b := by
  rw [bound, ← hname]
  exact h

/-- What is registered under a name in a scope is what the name denotes there. -/
theorem Registered.resolve (h : Registered scope name b ns) :
    name.resolve ns scope = .done (some b) := by
  obtain @⟨ns₀, ns₁, ns₂, ns₃, reg, reg', op, hdistinct, hcur, hopen, hlater₂, -, -, hprovide, hname,
    hlater, -, hb⟩ := h
  have hdistinct₂ := (hdistinct.step (.openScope hopen)).later hlater₂
  have hfind := ((hdistinct₂.step (.provide hprovide)).later hlater).findBinding hb
  obtain ⟨hparent, -, -, rfl⟩ := NameSpace.openScope_eq_done.1 hopen
  rw [hcur] at hname
  cases name with
  | single seg =>
      have hroot : seg.bytes.head? ≠ some rootChar := by
        simpa [NameSeg.bytes] using seg.valid.1.ne_root
      have habs : b.name = (scope ++ [seg]).bytes := by
        simpa [AcpiName.bytes, hroot] using hname
      exact congrArg done (searchScopes_of_bound (bound_of_name habs hfind))
  | parent levels path => exact absurd rfl hparent
  | multi first second rest =>
      have hroot : first.bytes.head? ≠ some rootChar := by
        simpa [NameSeg.bytes] using first.valid.1.ne_root
      have habs : b.name = (scope ++ first :: second :: rest).bytes := by
        simpa [AcpiName.bytes, NameSeg.bytes, hroot, first.valid.1.ne_root] using hname
      exact congrArg done (bound_of_name habs hfind)
  | rooted path =>
      have habs : b.name = path.bytes := by simpa [AcpiName.bytes] using hname
      exact congrArg done (bound_of_name habs hfind)

end Lookup

/-- **When `lookup_node` resolves a name.** For every current scope, every list of bindings
and every name, the lookup ends with the binding that ACPI name resolution gives exactly
if it makes no difference to take the path of the name for an absolute one. In
particular this decides whether an object is found by the name under which it was
registered in the same scope. -/
theorem lookup_node_resolves (scope : NamePath) (bindings : List Binding) (name : AcpiName) :
    ((⟨scope.bytes, bindings⟩ : NameSpace).LooksUp name.bytes
        (name.resolve ⟨scope.bytes, bindings⟩ scope) ↔
      name.SameFromRoot ⟨scope.bytes, bindings⟩ scope) ∧
    ∀ b, Registered scope name b ⟨scope.bytes, bindings⟩ →
      ((⟨scope.bytes, bindings⟩ : NameSpace).LooksUp name.bytes (.done (some b)) ↔
        name.SameFromRoot ⟨scope.bytes, bindings⟩ scope) := by
  have hlookup : (⟨scope.bytes, bindings⟩ : NameSpace).LooksUp name.bytes
      (name.resolve ⟨scope.bytes, bindings⟩ scope) ↔
        name.SameFromRoot ⟨scope.bytes, bindings⟩ scope :=
    looksUp_iff.trans (lookupBinding_eq_resolve rfl)
  refine ⟨hlookup, fun b hb => ?_⟩
  rw [hb.resolve] at hlookup
  exact hlookup

/-- The scope `_SB_` -/
def segSB : NameSeg := ⟨0x5f, 0x53, 0x42, 0x5f, by decide⟩

/-- The segment `PCI0` -/
def segPCI0 : NameSeg := ⟨0x50, 0x43, 0x49, 0x30, by decide⟩

/-- The segment `LNKA` -/
def segLNKA : NameSeg := ⟨0x4c, 0x4e, 0x4b, 0x41, by decide⟩

/-- A name space that a node was registered in under a name is reached. -/
theorem Registered.of_openScope {scope : NamePath} {name : AcpiName} {cur : Name} {n : NodePtr}
    (ns : NameSpace) (op : Opcode) (hns : ns.NamesDistinct) (hcur : ns.curNamespace_ = scope.bytes)
    (hopen : ns.openScope name.bytes = .done (⟨scope.bytes, .null⟩, ⟨cur, ns.bindings_⟩))
    (hop : op ≠ .deadScope) (hnone : ns.findBinding cur = none) :
    Registered scope name ⟨cur, n⟩ ⟨scope.bytes, ns.bindings_ ++ [⟨cur, n⟩]⟩ :=
  .intro hns hcur hopen (.start rfl) rfl hop
    (NameSpace.provide_eq_done.2 ⟨rfl, .inl ⟨hop, hnone, rfl, rfl⟩⟩) rfl (.start rfl) rfl (by simp)

/-- A device that is registered in `_SB_` by a single segment is found by it there. -/
theorem lookup_node_resolves_single :
    (⟨NamePath.bytes [segSB], [⟨NamePath.bytes [segSB, segPCI0], 7⟩]⟩ : NameSpace).LooksUp
      (AcpiName.single segPCI0).bytes (.done (some ⟨NamePath.bytes [segSB, segPCI0], 7⟩)) :=
  ((lookup_node_resolves [segSB] [⟨NamePath.bytes [segSB, segPCI0], 7⟩] (.single segPCI0)).2
    ⟨NamePath.bytes [segSB, segPCI0], 7⟩
    (Registered.of_openScope ⟨NamePath.bytes [segSB], []⟩ .device List.nodup_nil rfl rfl (by decide) rfl)).2 trivial

/-- An object that is registered in `_SB_` as `PCI0.LNKA` is not found by that name there:
it is bound to `\_SB_.PCI0.LNKA`, and the lookup looks for `\PCI0.LNKA`. -/
theorem not_lookup_node_resolves :
    ¬ ∀ (scope : NamePath) (bindings : List Binding) (name : AcpiName),
      (⟨scope.bytes, bindings⟩ : NameSpace).LooksUp name.bytes
        (name.resolve ⟨scope.bytes, bindings⟩ scope) ∧
      ∀ b, Registered scope name b ⟨scope.bytes, bindings⟩ →
        (⟨scope.bytes, bindings⟩ : NameSpace).LooksUp name.bytes (.done (some b)) := by
  intro h
  have hlookup := ((h [segSB] [⟨NamePath.bytes [segSB, segPCI0, segLNKA], 7⟩]
    (.multi segPCI0 segLNKA [])).2 ⟨NamePath.bytes [segSB, segPCI0, segLNKA], 7⟩
    (Registered.of_openScope ⟨NamePath.bytes [segSB], []⟩ .name List.nodup_nil rfl rfl (by decide) rfl)).1
  exact absurd hlookup (by decide)

end Attos.Aml

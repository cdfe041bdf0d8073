import Attos.Aml.Completeness

/-!
# What the trees of terms come from

Every parse function for terms returns a node if and only if the calls that it tests do, and
children are missing in the node where they are missing in the results of its calls
(`Sourced`). There is one lemma for each parse function, which follows the function.
-/

namespace Attos.Aml

open Lib Outcome ParseState

variable {mem : Memory} {c c' : Call} {w w' : World} {d d' data : ParseState} {r : Option (List Node)}
  {k : Check} {ps : List Piece} {f : ParseFunction} {fuel n : ℕ} {t : Option Term}

/-! ## Terms -/

theorem not_unresolved {c : Call} (hf : c.f ≠ .type2Opcode) : ¬ Unresolved mem c := fun h => hf h.1

/-- The functions that call no other ones -/
theorem not_calls_of_rank (hf : f.rank = 0) : ¬ Calls mem k ⟨f, w, data⟩ c' := by
  intro h
  cases f with
  | pkgLength | nameString | argOrLocal | fieldFlags =>
    cases h with
    | first _ hdispatch => cases hdispatch
    | body hamong => cases hamong
    | behind _ hamong => cases hamong
    | pkgLength _ hps => cases hps
    | inPackage _ hps => cases hps
    | object hf => obtain h | h := hf <;> cases h
  | _ => cases hf

/-- The functions that look at the first byte call the one that it says. -/
theorem calls_of_first (hf : f = .termArg ∨ f = .superName ∨ f = .target)
    (h : Calls mem k ⟨f, w, data⟩ c') :
    k = .tested ∧ ∃ b f', data.peek mem = done b ∧ f.dispatch b = some f' ∧ c' = ⟨f', w, data⟩ := by
  obtain rfl | rfl | rfl := hf
  all_goals
    cases h with
    | first hb hdispatch => exact ⟨rfl, _, _, hb, hdispatch, rfl⟩
    | body hamong => cases hamong
    | behind _ hamong => cases hamong
    | pkgLength _ hps => cases hps
    | inPackage _ hps => cases hps
    | object hf => obtain h | h := hf <;> cases h

/-- The calls of a function that only calls others -/
theorem calls_of_body (hf : f = .dataRefObject ∨ f = .index ∨ ∃ arity name tgt, f = .op arity name tgt)
    (h : Calls mem k ⟨f, w, data⟩ c') : Among mem f.body w data k c' := by
  obtain rfl | rfl | ⟨arity, name, tgt, rfl⟩ := hf
  all_goals
    cases h with
    | first _ hdispatch => cases hdispatch
    | body hamong => exact hamong
    | behind _ hamong => cases hamong
    | pkgLength _ hps => cases hps
    | inPackage _ hps => cases hps
    | object hf => obtain h | h := hf <;> cases h

/-- A function that returns what the function that the first byte says returns -/
theorem Sourced.of_first {f' : ParseFunction} {b : UInt8}
    (hf : f = .termArg ∨ f = .superName ∨ f = .target) (hdata : data.begin_ ≤ data.end_)
    (hb : data.peek mem = done b) (hdispatch : f.dispatch b = some f') (hterm : f'.isTerm = true)
    (h : f'.term mem fuel w data = done (d, t)) : Sourced mem ⟨f, w, data⟩ (termTrees t) := by
  have hun : ¬ Unresolved mem ⟨f, w, data⟩ := not_unresolved (by obtain rfl | rfl | rfl := hf <;> nofun)
  refine .same hun hdata (.first hb hdispatch) (fun k c'' hcalls => ?_) (returns_term hterm h)
  obtain ⟨rfl, b', f'', hb', hdispatch', rfl⟩ := calls_of_first hf hcalls
  cases hb.symm.trans hb'
  cases hdispatch.symm.trans hdispatch'
  exact ⟨rfl, rfl⟩

section Terms

variable (hdata : data.begin_ ≤ data.end_)

include hdata

theorem parseArgOrLocal_sourced (h : parseArgOrLocal mem data = done (d, t)) :
    Sourced mem ⟨.argOrLocal, w, data⟩ (termTrees t) := by
  obtain ⟨⟨op, d₁⟩, -, h⟩ := bind_eq_done.1 h
  obtain ⟨-, h⟩ := require_bind_eq_done.1 h
  cases h
  refine .of_harmless (not_unresolved nofun) hdata (fun k c' hcalls => absurd hcalls ?_) ?_
  · exact not_calls_of_rank rfl
  · simp

theorem parseTermArg_sourced (h : parseTermArg mem w fuel data = done (d, t)) :
    Sourced mem ⟨.termArg, w, data⟩ (termTrees t) := by
  obtain _ | fuel := fuel
  · rw [parseTermArg] at h
    cases h
  rw [parseTermArg] at h
  obtain ⟨b, hb, h⟩ := bind_eq_done.1 h
  have hsource {f' : ParseFunction} (hdispatch : ParseFunction.termArg.dispatch b = some f')
      (hterm : f'.isTerm = true) (h : f'.term mem fuel w data = done (d, t)) :
      Sourced mem ⟨.termArg, w, data⟩ (termTrees t) := .of_first (.inl rfl) hdata hb hdispatch hterm h
  split at h
  case isTrue harg => exact hsource (if_pos harg) rfl h
  case isFalse harg =>
    split at h
    case isTrue hobject =>
      exact hsource ((if_neg harg).trans (if_pos hobject)) rfl h
    case isFalse hobject =>
      exact hsource ((if_neg harg).trans (if_neg hobject)) rfl h

theorem parseSuperName_sourced (h : parseSuperName mem w fuel data = done (d, t)) :
    Sourced mem ⟨.superName, w, data⟩ (termTrees t) := by
  obtain _ | fuel := fuel
  · rw [parseSuperName] at h
    cases h
  rw [parseSuperName] at h
  obtain ⟨b, hb, h⟩ := bind_eq_done.1 h
  have hsource {f' : ParseFunction} (hdispatch : ParseFunction.superName.dispatch b = some f')
      (hterm : f'.isTerm = true) (h : f'.term mem fuel w data = done (d, t)) :
      Sourced mem ⟨.superName, w, data⟩ (termTrees t) :=
    .of_first (.inr (.inl rfl)) hdata hb hdispatch hterm h
  split at h
  case isTrue harg => exact hsource (if_pos harg) rfl h
  case isFalse harg =>
    split at h
    case isTrue hname =>
      obtain ⟨⟨d₁, name⟩, hparse, h⟩ := bind_eq_done.1 h
      cases h
      refine .of_harmless (not_unresolved (by simp)) hdata (fun k c' hcalls => ?_) ?_
      · obtain ⟨rfl, b', f', hb', hdispatch, rfl⟩ := calls_of_first (.inr (.inl rfl)) hcalls
        cases hb.symm.trans hb'
        cases ((if_neg harg).trans (if_pos hname)).symm.trans hdispatch
        exact harmless_nameString hparse
      · simp
    case isFalse hname =>
      split at h
      case isTrue hop => exact hsource ((if_neg harg).trans ((if_neg hname).trans (if_pos hop))) rfl h
      case isFalse hop =>
        obtain ⟨_, -, h⟩ := bind_eq_done.1 h
        cases h

theorem parseTarget_sourced (h : parseTarget mem w fuel data = done (d, t)) :
    Sourced mem ⟨.target, w, data⟩ (termTrees t) := by
  obtain _ | fuel := fuel
  · rw [parseTarget] at h
    cases h
  rw [parseTarget] at h
  obtain ⟨b, hb, h⟩ := bind_eq_done.1 h
  split at h
  case isTrue hzero =>
    obtain ⟨⟨_, d₁⟩, -, h⟩ := bind_eq_done.1 h
    cases h
    refine .of_harmless (not_unresolved (by simp)) hdata (fun k c' hcalls => ?_) ?_
    · obtain ⟨rfl, b', f', hb', hdispatch, rfl⟩ := calls_of_first (.inr (.inr rfl)) hcalls
      cases hb.symm.trans hb'
      cases (if_pos hzero).symm.trans hdispatch
    · simp
  case isFalse hzero => exact .of_first (.inr (.inr rfl)) hdata hb (if_neg hzero) rfl h

theorem Sourced.of_body (f' : ParseFunction) (hf : f = .dataRefObject ∨ f = .index)
    (hbody : f.body = [.call f' .tested]) (hterm : f'.isTerm = true)
    (h : f'.term mem fuel w data = done (d, t)) : Sourced mem ⟨f, w, data⟩ (termTrees t) := by
  have hun : ¬ Unresolved mem ⟨f, w, data⟩ := not_unresolved (by obtain rfl | rfl := hf <;> nofun)
  have hcalls : Calls mem .tested ⟨f, w, data⟩ ⟨f', w, data⟩ := .body (by rw [hbody]; exact .here)
  refine .same hun hdata hcalls (fun k c'' hcalls' => ?_) (returns_term hterm h)
  have hamong := calls_of_body (hf.imp_right .inl) hcalls'
  rw [hbody] at hamong
  cases hamong with
  | here => exact ⟨rfl, rfl⟩
  | call _ _ hamong => cases hamong

theorem parseDataRefObject_sourced (h : parseDataRefObject mem w fuel data = done (d, t)) :
    Sourced mem ⟨.dataRefObject, w, data⟩ (termTrees t) := by
  obtain _ | fuel := fuel
  · rw [parseDataRefObject] at h
    cases h
  rw [parseDataRefObject] at h
  exact .of_body hdata .dataObject (.inl rfl) rfl rfl h

theorem parseIndex_sourced (h : parseIndex mem w fuel data = done (d, t)) :
    Sourced mem ⟨.index, w, data⟩ (termTrees t) := by
  obtain _ | fuel := fuel
  · rw [parseIndex] at h
    cases h
  rw [parseIndex] at h
  exact .of_body hdata (.op 2 "index" true) (.inr rfl) rfl rfl h

end Terms

/-- The loop over a number of arguments returns them, or one of its calls returned none. -/
theorem parseArgs_ran {args : Option (List Term)} (hdata : data.begin_ ≤ data.end_)
    (h : parseArgs (parseTermArg mem w fuel) n data = done (d, args)) :
    (∃ ts, args = some ts ∧ Rest data d ∧ ∃ rs, (∀ ps rs', Ran mem ps w d rs' →
      Ran mem (operands n ++ ps) w data (rs ++ rs')) ∧
        (termsComplete ts ↔ ∀ kr ∈ rs, Keeps kr.1 kr.2)) ∨
    args = none ∧ ∃ c' w' d', (∀ ps, Among mem (operands n ++ ps) w data .tested c') ∧
      Returns mem c' w' d' none := by
  induction n generalizing data args with
  | zero =>
    cases h
    exact .inl ⟨[], rfl, .refl hdata, [], fun _ _ h => h, by simp [termsComplete]⟩
  | succ n ih =>
    obtain ⟨⟨d₁, arg⟩, harg, h⟩ := bind_eq_done.1 h
    have hreturns : Returns mem ⟨.termArg, w, data⟩ w d₁ (termTrees arg) := returns_term rfl harg
    cases arg with
    | none =>
      cases h
      exact .inr ⟨rfl, _, _, _, fun _ => .here, hreturns⟩
    | some arg =>
      obtain ⟨⟨d₂, rest⟩, hrest, h⟩ := bind_eq_done.1 h
      cases h
      have hd₁ : Rest data d₁ := hreturns.rest hdata
      obtain ⟨ts, rfl, hd₂, rs, hran, hts⟩ | ⟨rfl, c', w', d', hamong, hnone⟩ := ih hd₁.le_end hrest
      · refine .inl ⟨arg :: ts, rfl, hd₁.trans hd₂, (.tested, some [.term arg]) :: rs,
          fun ps rs' h => .call hreturns (fun _ => by simp) (hran ps rs' h), ?_⟩
        simp only [termsComplete, hts, List.forall_mem_cons, keeps_tested, nodesComplete_cons,
          nodesComplete_nil, complete_term, and_true]
      · exact .inr ⟨rfl, c', w', d', fun ps => .call hreturns (fun _ h => by cases h) (hamong ps), hnone⟩

section Terms

variable (hdata : data.begin_ ≤ data.end_)

include hdata

theorem parseOp_sourced {arity : ℕ} {name : String} {tgt : Bool}
    (h : parseOp mem w arity name tgt fuel data = done (d, t)) :
    Sourced mem ⟨.op arity name tgt, w, data⟩ (termTrees t) := by
  obtain _ | fuel := fuel
  · rw [parseOp] at h
    cases h
  rw [parseOp] at h
  obtain ⟨⟨d₁, args⟩, hargs, h⟩ := bind_eq_done.1 h
  have hout (k : Check) (c' : Call) (h : Calls mem k ⟨.op arity name tgt, w, data⟩ c') :
      Among mem (ParseFunction.op arity name tgt).body w data k c' ∨ Harmless mem c' :=
    .inl (calls_of_body (.inr (.inr ⟨_, _, _, rfl⟩)) h)
  obtain ⟨ts, rfl, hd₁, rs, hran, hts⟩ | ⟨rfl, c', w', d', hamong, hnone⟩ := parseArgs_ran hdata hargs
  · cases tgt with
    | true =>
      obtain ⟨⟨d₂, target⟩, htarget, h⟩ := bind_eq_done.1 h
      cases h
      have hreturns : Returns mem ⟨.target, w, d₁⟩ w d (termTrees target) := returns_term rfl htarget
      refine .of_pieces (not_unresolved (by simp)) hdata hdata (fun _ _ => .body) hout
        (hran _ _ (.call hreturns (by simp) .nil)) ?_
      simp only [nodesComplete_cons, nodesComplete_nil, complete_term, complete_op, and_true,
        operandsComplete_map_some, hts, List.forall_mem_append, List.forall_mem_singleton, keeps_optional]
    | false =>
      cases h
      refine .of_pieces (not_unresolved (by simp)) hdata hdata (fun _ _ => .body) hout (hran _ _ .nil) ?_
      simp only [nodesComplete_cons, nodesComplete_nil, complete_term, complete_op, and_true,
        operandsComplete_map_some, hts, List.append_nil, targetComplete_none]
  · cases h
    exact .of_failed (.body (hamong _)) hnone

end Terms

/-! ## Data objects -/

/-- The calls of a construct: the pieces behind its opcode, the pieces in its package, and what
comes behind them in a package or a conditional -/
theorem calls_of_construct {code : Opcode} (hf : f = .dataObject ∨ f = .termObj ∧ ¬ isType2Opcode code)
    (hop : data.consumeOpcode mem = done (code, d)) (h : Calls mem k ⟨f, w, data⟩ c') :
    Among mem (f.behind code) w d k c' ∨
    (∃ ps, f.inPackage code = some ps ∧
      (c' = ⟨.pkgLength, w, d⟩ ∨ ∃ pkg, adjustWithPkgLength mem d = done pkg ∧ Among mem ps w pkg k c')) ∨
    (f = .dataObject ∧ code = .package ∧ ∃ pkg n d₁ d₂ b, adjustWithPkgLength mem d = done pkg ∧
      pkg.consume mem = done (n, d₁) ∧ Elements mem w d₁ d₂ ∧ d₂.peek mem = done b ∧
        k = .tested ∧ c' = ⟨packageElement b, w, d₂⟩) ∨
    (f = .termObj ∧ code = .if_ ∧ ∃ w₁ d₁, ElseBranch mem w data w₁ d₁ ∧ k = .tested ∧ (c' = ⟨.pkgLength, w₁, d₁⟩ ∨
      ∃ pkg, adjustWithPkgLength mem d₁ = done pkg ∧ c' = ⟨.termList, w₁, pkg⟩)) := by
  cases h with
  | first _ hdispatch => obtain rfl | ⟨rfl, -⟩ := hf <;> cases hdispatch
  | body hamong => obtain rfl | ⟨rfl, -⟩ := hf <;> cases hamong
  | behind hop' hamong =>
    cases hop.symm.trans hop'
    exact .inl hamong
  | negation => obtain h | ⟨h, -⟩ := hf <;> cases h
  | argument => obtain h | ⟨h, -⟩ := hf <;> cases h
  | operator hpeek htype2 =>
    obtain h | ⟨-, htype2'⟩ := hf
    · cases h
    · cases hpeek.symm.trans (consumeOpcode_eq_done hop).1
      exact absurd htype2 htype2'
  | pkgLength hop' hps =>
    cases hop.symm.trans hop'
    exact .inr (.inl ⟨_, hps, .inl rfl⟩)
  | inPackage hop' hps hadjust hamong =>
    cases hop.symm.trans hop'
    exact .inr (.inl ⟨_, hps, .inr ⟨_, hadjust, hamong⟩⟩)
  | element hop' hadjust hconsume helements hb =>
    cases hop.symm.trans hop'
    exact .inr (.inr (.inl ⟨rfl, rfl, _, _, _, _, _, hadjust, hconsume, helements, hb, rfl, rfl⟩))
  | object hlist => obtain rfl | rfl := hlist <;> obtain h | ⟨h, -⟩ := hf <;> cases h
  | reserved => obtain h | ⟨h, -⟩ := hf <;> cases h
  | named => obtain h | ⟨h, -⟩ := hf <;> cases h
  | elseLength hbranch =>
    have hif := hbranch
    obtain ⟨hop', -⟩ := hif
    cases hop.symm.trans hop'
    exact .inr (.inr (.inr ⟨rfl, rfl, _, _, hbranch, rfl, .inl rfl⟩))
  | elseList hbranch hadjust =>
    have hif := hbranch
    obtain ⟨hop', -⟩ := hif
    cases hop.symm.trans hop'
    exact .inr (.inr (.inr ⟨rfl, rfl, _, _, hbranch, rfl, .inr ⟨_, hadjust, rfl⟩⟩))

/-- A conditional has one else branch. -/
theorem ElseBranch.unique {w₁ w₂ : World} {d₁ d₂ : ParseState} (h : ElseBranch mem w data w₁ d₁)
    (h' : ElseBranch mem w data w₂ d₂) (hdata : data.begin_ ≤ data.end_) : w₁ = w₂ ∧ d₁ = d₂ := by
  obtain ⟨hop, hadjust, hpred, hlist, -, hop₁⟩ := h
  obtain ⟨hop', hadjust', hpred', hlist', -, hop₁'⟩ := h'
  cases hop.symm.trans hop'
  cases hadjust.symm.trans hadjust'
  have hpkg := package_of_adjustWithPkgLength (shorter_of_consumeOpcode hdata hop).le_end hadjust
  obtain ⟨rfl, rfl, -⟩ := hpred.unique hpred' hpkg.le_end
  obtain ⟨rfl, -, -⟩ := hlist.unique hlist' (hpred.rest hpkg.le_end).le_end
  cases hop₁.symm.trans hop₁'
  exact ⟨rfl, rfl⟩

/-- The length of a package is there. -/
theorem harmless_pkgLength {pkg : ParseState} (h : adjustWithPkgLength mem d = done pkg) :
    Harmless mem ⟨.pkgLength, w, d⟩ := by
  obtain ⟨_, -, h⟩ := bind_eq_done.1 h
  obtain ⟨⟨rest, len⟩, hlen, -⟩ := bind_eq_done.1 h
  refine ⟨w, rest, [], ⟨0, ?_⟩, trivial⟩
  simp only [ParseFunction.result, hlen, done_bind]
  rfl

/-- The elements of a package from a view on: the first one, and those behind it -/
theorem elements_cons {data : ParseState} (h : Elements mem w data d) : d = data ∨
    ∃ b w₁ d₁ ns, data.peek mem = done b ∧ Returns mem ⟨packageElement b, w, data⟩ w₁ d₁ (some ns) ∧
      Elements mem w d₁ d := by
  induction h with
  | start => exact .inl rfl
  | next helements hb hreturns ih =>
    obtain rfl | ⟨b, w₁, d₁, ns, hb₁, hreturns₁, helements₁⟩ := ih
    · exact .inr ⟨_, _, _, _, hb, hreturns, .start⟩
    · exact .inr ⟨b, w₁, d₁, ns, hb₁, hreturns₁, .next helements₁ hb hreturns⟩

theorem Elements.cons {data d₁ : ParseState} {b : UInt8} {ns : List Node} (hb : data.peek mem = done b)
    (hreturns : Returns mem ⟨packageElement b, w, data⟩ w' d₁ (some ns)) (h : Elements mem w d₁ d) :
    Elements mem w data d := by
  induction h with
  | start => exact .next .start hb hreturns
  | next _ hb' hreturns' ih => exact .next ih hb' hreturns'

/-- An element of a package -/
theorem parsePackageElement_returns {t : Term} (h : parsePackageElement mem w fuel data = done (d, some t)) :
    ∃ b ns, data.peek mem = done b ∧ Returns mem ⟨packageElement b, w, data⟩ w d (some ns) ∧
      (t.Complete ↔ nodesComplete ns) := by
  obtain _ | fuel := fuel
  · rw [parsePackageElement] at h
    cases h
  rw [parsePackageElement] at h
  obtain ⟨b, hb, h⟩ := bind_eq_done.1 h
  split at h
  case isTrue hname =>
    obtain ⟨⟨d₁, name⟩, hparse, h⟩ := bind_eq_done.1 h
    cases h
    have helement : packageElement b = .nameString := if_pos hname
    exact ⟨b, [], hb, helement ▸ returns_nameString w hparse, Iff.rfl⟩
  case isFalse hname =>
    have helement : packageElement b = .dataRefObject := if_neg hname
    have hreturns : Returns mem ⟨.dataRefObject, w, data⟩ w d (termTrees (some t)) := returns_term rfl h
    exact ⟨b, [.term t], hb, helement ▸ hreturns, by simp⟩

/-- The loop over the elements of a package returns them, after all of their calls returned. -/
theorem parseElements_complete {objs ts : List Term} (hdata : data.begin_ ≤ data.end_)
    (h : parseList Term.opcode (fun _ u => pure u)
      (fun u data => do
        let (data, element) ← parsePackageElement mem w fuel data
        pure (u, data, element)) n () data objs = done ((), d, some ts)) :
    (∀ d₂ b, Elements mem w data d₂ → d₂.peek mem = done b →
      ∃ w' d' ns, Returns mem ⟨packageElement b, w, d₂⟩ w' d' (some ns)) ∧
    (termsComplete ts ↔ termsComplete objs ∧ ∀ d₂ b w' d' r, Elements mem w data d₂ → d₂.peek mem = done b →
      Returns mem ⟨packageElement b, w, d₂⟩ w' d' r → Keeps .tested r) := by
  induction n generalizing data objs with
  | zero => cases h
  | succ n ih =>
    rw [parseList] at h
    split at h
    case isTrue hend =>
      have hpeek {d₂ : ParseState} {b : UInt8} (helements : Elements mem w data d₂)
          (hb : d₂.peek mem = done b) : False := by
        have hrest := helements.rest hdata
        have hlt := hrest.begin_le
        have hle := hrest.le_end
        have heq := hrest.end_eq
        have hsize := (require_bind_eq_done.1 hb).1
        rw [size] at hsize
        omega
      cases h
      refine ⟨fun d₂ b helements hb => (hpeek helements hb).elim, (and_iff_left ?_).symm⟩
      exact fun d₂ b w' d' r helements hb => (hpeek helements hb).elim
    case isFalse hne =>
      obtain ⟨⟨_, d₁, res⟩, hfirst, h⟩ := bind_eq_done.1 h
      cases res with
      | none => cases h
      | some t =>
        obtain ⟨⟨d₁', t'⟩, helement, hpair⟩ := bind_eq_done.1 hfirst
        cases hpair
        have hd₁ := (parsePackageElement_extent hdata helement).toRest
        obtain ⟨b, ns, hb, hreturns, hcomplete⟩ := parsePackageElement_returns helement
        have halive : t.opcode ≠ .deadScope := (parsePackageElement_termExtent hdata helement).alive t rfl
        dsimp only at h
        rw [if_pos halive] at h
        obtain ⟨hrest, hts⟩ := ih hd₁.le_end h
        refine ⟨fun d₂ b₂ helements hb₂ => ?_, ?_⟩
        · obtain rfl | ⟨b', w', d', ns', hb', hreturns', helements'⟩ := elements_cons helements
          · cases hb.symm.trans hb₂
            exact ⟨_, _, _, hreturns⟩
          · cases hb.symm.trans hb'
            obtain ⟨-, rfl, -⟩ := hreturns.unique hreturns' hdata
            exact hrest d₂ b₂ helements' hb₂
        · rw [hts, termsComplete_append]
          constructor
          · rintro ⟨⟨hobjs, ht⟩, hkeeps⟩
            refine ⟨hobjs, fun d₂ b₂ w' d' r helements hb₂ hreturns₂ => ?_⟩
            obtain rfl | ⟨b', w₁, d'', ns', hb', hreturns', helements'⟩ := elements_cons helements
            · cases hb.symm.trans hb₂
              obtain ⟨-, -, rfl⟩ := hreturns.unique hreturns₂ hdata
              exact hcomplete.1 ht.1
            · cases hb.symm.trans hb'
              obtain ⟨-, rfl, -⟩ := hreturns.unique hreturns' hdata
              exact hkeeps d₂ b₂ w' d' r helements' hb₂ hreturns₂
          · rintro ⟨hobjs, hkeeps⟩
            have ht : t.Complete := hcomplete.2 (hkeeps data b w d₁ (some ns) .start hb hreturns)
            refine ⟨⟨hobjs, ht, trivial⟩, fun d₂ b₂ w' d' r helements hb₂ hreturns₂ => ?_⟩
            exact hkeeps d₂ b₂ w' d' r (.cons hb hreturns helements) hb₂ hreturns₂

section Terms

variable (hdata : data.begin_ ≤ data.end_)

include hdata

theorem parseDataObject_sourced (h : parseDataObject mem w fuel data = done (d, t)) :
    Sourced mem ⟨.dataObject, w, data⟩ (termTrees t) := by
  obtain _ | fuel := fuel
  · rw [parseDataObject] at h
    cases h
  rw [parseDataObject] at h
  obtain ⟨⟨op, d₁⟩, hop, h⟩ := bind_eq_done.1 h
  obtain ⟨-, -, h⟩ := bind_eq_done.1 h
  have hun : ¬ Unresolved mem ⟨.dataObject, w, data⟩ := not_unresolved (by simp)
  have hd₁ := shorter_of_consumeOpcode hdata hop
  have hcalls {k : Check} {c' : Call} (h : Calls mem k ⟨.dataObject, w, data⟩ c') :=
    calls_of_construct (.inl rfl) hop h
  -- a constant
  have hconst {t : Term} (hps : ParseFunction.dataObject.inPackage op = none) (ht : t.Complete) :
      Sourced mem ⟨.dataObject, w, data⟩ (some [.term t]) := by
    refine .of_harmless hun hdata (fun k c' h => ?_) (by simpa using ht)
    obtain hamong | ⟨ps, hps', -⟩ | ⟨-, rfl, -⟩ | ⟨hf, -⟩ := hcalls h
    · cases hamong
    · cases hps.symm.trans hps'
    · cases hps
    · cases hf
  dsimp only at h
  split at h
  case h_4 =>
    obtain ⟨_, -, h⟩ := bind_eq_done.1 h
    cases h
    exact hconst rfl trivial
  case h_5 =>
    obtain ⟨_, -, h⟩ := bind_eq_done.1 h
    cases h
    exact hconst rfl trivial
  case h_6 =>
    obtain ⟨_, -, h⟩ := bind_eq_done.1 h
    cases h
    exact hconst rfl trivial
  case h_7 =>
    obtain ⟨_, -, h⟩ := bind_eq_done.1 h
    cases h
    exact hconst rfl trivial
  case h_8 =>
    obtain ⟨text, -, h⟩ := bind_eq_done.1 h
    obtain ⟨_, -, h⟩ := bind_eq_done.1 h
    cases h
    exact hconst rfl trivial
  case h_9 =>
    obtain ⟨pkg, hadjust, h⟩ := bind_eq_done.1 h
    obtain ⟨⟨rest, bufferSize⟩, hsize, h⟩ := bind_eq_done.1 h
    obtain ⟨bytes, -, h⟩ := bind_eq_done.1 h
    cases h
    have hpkg := package_of_adjustWithPkgLength hd₁.le_end hadjust
    have hreturns : Returns mem ⟨.termArg, w, pkg⟩ w rest (termTrees bufferSize) := returns_term rfl hsize
    refine .of_pieces hun hdata hpkg.le_end (fun k c' => .inPackage hop rfl hadjust) (fun k c' h => ?_)
      (.call hreturns (by simp) .nil) ?_
    · obtain hamong | ⟨ps, hps, rfl | ⟨pkg', hadjust', hamong⟩⟩ | ⟨-, hcode, -⟩ | ⟨hf, -⟩ := hcalls h
      · cases hamong
      · exact .inr (harmless_pkgLength hadjust)
      · cases hps
        cases hadjust.symm.trans hadjust'
        exact .inl hamong
      · cases hcode
      · cases hf
    · simp [Term.Complete]
  case h_10 =>
    obtain ⟨pkg, hadjust, h⟩ := bind_eq_done.1 h
    obtain ⟨⟨numElements, elementData⟩, hconsume, h⟩ := bind_eq_done.1 h
    obtain ⟨⟨_, d₂, elements⟩, hlist, h⟩ := bind_eq_done.1 h
    obtain ⟨elements, hsome, h⟩ := bind_eq_done.1 h
    rw [requireSome_eq_done] at hsome
    subst hsome
    obtain ⟨-, h⟩ := require_bind_eq_done.1 h
    cases h
    have hpkg := package_of_adjustWithPkgLength hd₁.le_end hadjust
    have hd₂ := shorter_of_consume hconsume
    obtain ⟨hreturn, hcomplete⟩ := parseElements_complete hd₂.le_end hlist
    -- the calls are those for the elements
    have helement {k : Check} {c' : Call} (h : Calls mem k ⟨.dataObject, w, data⟩ c') : Harmless mem c' ∨
        k = .tested ∧ ∃ d₃ b, Elements mem w elementData d₃ ∧ d₃.peek mem = done b ∧
          c' = ⟨packageElement b, w, d₃⟩ := by
      obtain hamong | ⟨ps, hps, rfl | ⟨pkg', hadjust', hamong⟩⟩ |
        ⟨-, -, pkg', n, d₃, d₄, b, hadjust', hconsume', helements, hb, hk, hc'⟩ | ⟨hf, -⟩ := hcalls h
      · cases hamong
      · exact .inl (harmless_pkgLength hadjust)
      · cases hps
        cases hamong with
        | bytes _ hamong => cases hamong
      · cases hadjust.symm.trans hadjust'
        cases hconsume.symm.trans hconsume'
        exact .inr ⟨hk, d₄, b, helements, hb, hc'⟩
      · cases hf
    refine ⟨by rintro ⟨⟩, fun _ => hun, fun _ k c' h => ?_, fun ns hns => ?_⟩
    · obtain hharmless | ⟨-, d₃, b, helements, hb, rfl⟩ := helement h
      · exact hharmless.returns
      · obtain ⟨w', d', ns, hreturns⟩ := hreturn d₃ b helements hb
        exact ⟨w', d', some ns, hreturns, fun _ => by simp⟩
    · cases hns
      rw [nodesComplete_cons, and_iff_left nodesComplete_nil]
      refine (hcomplete.trans (and_iff_right trivial)).trans ⟨fun hkeeps k c' w' d' r h hreturns => ?_,
        fun hkeeps d₃ b w' d' r helements hb hreturns => ?_⟩
      · obtain hharmless | ⟨rfl, d₃, b, helements, hb, rfl⟩ := helement h
        · exact hharmless.keeps (h.before hdata).within.le_end hreturns
        · exact hkeeps d₃ b w' d' r helements hb hreturns
      · exact hkeeps .tested _ w' d' r (.element hop hadjust hconsume helements hb) hreturns
  case h_11 =>
    obtain ⟨_, -, h⟩ := bind_eq_done.1 h
    cases h
  all_goals
    cases h
    exact hconst rfl trivial

end Terms

/-! ## Operators -/

/-- The calls of an operator are the pieces behind its opcode, or those of a negation. -/
theorem calls_of_operator {code : Opcode} (hf : f = .type6Opcode ∨ f = .type2Opcode ∧
    ∀ b, data.peek mem = done b → ¬ isNameStringStart b) (hop : data.consumeOpcode mem = done (code, d))
    (h : Calls mem k ⟨f, w, data⟩ c') : Among mem (f.behind code) w d k c' ∨
      f = .type2Opcode ∧ code = .lnot ∧ ∃ next, d.peekOpcode mem = done next ∧
        Among mem (negationPieces next) w d k c' := by
  cases h with
  | first hb hdispatch =>
    obtain rfl | ⟨rfl, hname⟩ := hf
    · cases hdispatch
    · rw [ParseFunction.dispatch, if_neg (hname _ hb)] at hdispatch
      cases hdispatch
  | body hamong => obtain rfl | ⟨rfl, -⟩ := hf <;> cases hamong
  | behind hop' hamong =>
    cases hop.symm.trans hop'
    exact .inl hamong
  | negation hop' hnext hamong =>
    cases hop.symm.trans hop'
    exact .inr ⟨rfl, rfl, _, hnext, hamong⟩
  | argument hb hstart =>
    obtain h | ⟨-, hname⟩ := hf
    · cases h
    · exact absurd hstart (hname _ hb)
  | pkgLength _ hps => obtain rfl | ⟨rfl, -⟩ := hf <;> cases hps
  | inPackage _ hps => obtain rfl | ⟨rfl, -⟩ := hf <;> cases hps
  | object hlist => obtain rfl | rfl := hlist <;> obtain h | ⟨h, -⟩ := hf <;> cases h
  | operator | element | reserved | named | elseLength | elseList => obtain h | ⟨h, -⟩ := hf <;> cases h

/-- A single call behind the opcode -/
theorem Sourced.of_call (f' : ParseFunction) (hun : ¬ Unresolved mem c) (hc : c.data.begin_ ≤ c.data.end_)
    (hcalls : ∀ k c', Calls mem k c c' ↔ Among mem [.call f' .tested] w d k c') (hterm : f'.isTerm = true)
    (h : f'.term mem fuel w d = done (d', t)) : Sourced mem c (termTrees t) := by
  refine .same hun hc ((hcalls _ _).2 .here) (fun k c'' h => ?_) (returns_term hterm h)
  cases (hcalls k c'').1 h with
  | here => exact ⟨rfl, rfl⟩
  | call _ _ hamong => cases hamong

section Terms

variable (hname : ∀ b, data.peek mem = done b → ¬ isNameStringStart b)

include hname

theorem calls_iff_operator {code : Opcode} (hop : data.consumeOpcode mem = done (code, d))
    (hcode : code ≠ .lnot) (k : Check) (c' : Call) :
    Calls mem k ⟨.type2Opcode, w, data⟩ c' ↔ Among mem (operatorPieces code) w d k c' := by
  refine ⟨fun h => ?_, .behind (f := .type2Opcode) hop⟩
  obtain hamong | ⟨-, hlnot, -⟩ := calls_of_operator (.inr ⟨rfl, hname⟩) hop h
  · exact hamong
  · exact absurd hlnot hcode

theorem calls_iff_negation {next : Opcode} (hop : data.consumeOpcode mem = done (.lnot, d))
    (hnext : d.peekOpcode mem = done next) (k : Check) (c' : Call) :
    Calls mem k ⟨.type2Opcode, w, data⟩ c' ↔ Among mem (negationPieces next) w d k c' := by
  refine ⟨fun h => ?_, .negation hop hnext⟩
  obtain hamong | ⟨-, -, next', hnext', hamong⟩ := calls_of_operator (.inr ⟨rfl, hname⟩) hop h
  · cases hamong
  · cases hnext.symm.trans hnext'
    exact hamong

theorem not_unresolved_of_operator : ¬ Unresolved mem ⟨.type2Opcode, w, data⟩ := by
  rintro ⟨-, b, _, _, hb, hstart, -⟩
  exact hname b hb hstart

end Terms

section Terms

variable (hdata : data.begin_ ≤ data.end_)

include hdata

theorem parseType6Opcode_sourced (h : parseType6Opcode mem w fuel data = done (d, t)) :
    Sourced mem ⟨.type6Opcode, w, data⟩ (termTrees t) := by
  obtain _ | fuel := fuel
  · rw [parseType6Opcode] at h
    cases h
  rw [parseType6Opcode] at h
  obtain ⟨⟨op, d₁⟩, hop, h⟩ := bind_eq_done.1 h
  obtain ⟨-, h⟩ := require_bind_eq_done.1 h
  obtain ⟨rfl, h⟩ := require_bind_eq_done.1 h
  have hcalls (k : Check) (c' : Call) : Calls mem k ⟨.type6Opcode, w, data⟩ c' ↔
      Among mem [.call .index .tested] w d₁ k c' := by
    refine ⟨fun h => ?_, .behind (f := .type6Opcode) hop⟩
    obtain hamong | ⟨hf, -⟩ := calls_of_operator (.inl rfl) hop h
    · exact hamong
    · cases hf
  exact .of_call .index (not_unresolved (by simp)) hdata hcalls rfl h

/-- The operators of `parse_type2_opcode` -/
theorem parseOperator_sourced (hname : ∀ b, data.peek mem = done b → ¬ isNameStringStart b)
    (h : parseType2Opcode mem w fuel data = done (d, t)) :
    Sourced mem ⟨.type2Opcode, w, data⟩ (termTrees t) := by
  obtain _ | fuel := fuel
  · rw [parseType2Opcode] at h
    cases h
  rw [parseType2Opcode] at h
  obtain ⟨b, hb, h⟩ := bind_eq_done.1 h
  rw [if_neg (hname b hb)] at h
  obtain ⟨⟨op, d₁⟩, hop, h⟩ := bind_eq_done.1 h
  have hun : ¬ Unresolved mem ⟨.type2Opcode, w, data⟩ := not_unresolved_of_operator hname
  have hd₁ := shorter_of_consumeOpcode hdata hop
  -- an operator with a single call
  have hcall {f' : ParseFunction} (hps : operatorPieces op = [.call f' .tested]) (hterm : f'.isTerm = true)
      (h : f'.term mem fuel w d₁ = done (d, t)) : Sourced mem ⟨.type2Opcode, w, data⟩ (termTrees t) := by
    refine .of_call f' hun hdata (fun k c' => ?_) hterm h
    rw [← hps]
    exact calls_iff_operator hname hop (by rintro rfl; cases hps) k c'
  have hpieces {rs : List (Check × Option (List Node))} {ns : List Node} (hlnot : op ≠ .lnot)
      (hran : Ran mem (operatorPieces op) w d₁ rs) (hns : nodesComplete ns ↔ ∀ kr ∈ rs, Keeps kr.1 kr.2) :
      Sourced mem ⟨.type2Opcode, w, data⟩ (some ns) := by
    have hcalls (k : Check) (c' : Call) := calls_iff_operator (w := w) hname hop hlnot k c'
    exact .of_pieces hun hdata hd₁.le_end (fun k c' => (hcalls k c').2) (fun k c' h => .inl ((hcalls k c').1 h))
      hran hns
  have hterm {d d' : ParseState} {t : Option Term} {f : ParseFunction} (hf : f.isTerm = true)
      (h : f.term mem fuel w d = done (d', t)) : Returns mem ⟨f, w, d⟩ w d' (termTrees t) := returns_term hf h
  dsimp only at h
  split at h
  case isTrue =>
    obtain ⟨_, -, h⟩ := bind_eq_done.1 h
    cases h
  case isFalse =>
    split at h
    -- divide
    case h_6 =>
      obtain ⟨⟨d₂, dividend⟩, hdividend, h⟩ := bind_eq_done.1 h
      obtain ⟨⟨d₃, divisor⟩, hdivisor, h⟩ := bind_eq_done.1 h
      obtain ⟨⟨d₄, remainder⟩, hremainder, h⟩ := bind_eq_done.1 h
      obtain ⟨⟨d₅, quotient⟩, hquotient, h⟩ := bind_eq_done.1 h
      cases h
      refine hpieces (by simp) (.call (hterm (f := .termArg) rfl hdividend) (by simp)
        (.call (hterm (f := .termArg) rfl hdivisor) (by simp) (.call (hterm (f := .target) rfl hremainder) (by simp)
          (.call (hterm (f := .target) rfl hquotient) (by simp) .nil)))) ?_
      simp [and_assoc]
    -- deref_of
    case h_16 =>
      obtain ⟨⟨d₂, arg⟩, harg, h⟩ := bind_eq_done.1 h
      cases h
      refine hpieces (by simp) (.call (hterm (f := .termArg) rfl harg) (by simp) .nil) ?_
      simp
    -- lnot
    case h_22 =>
      obtain ⟨next, hnext, h⟩ := bind_eq_done.1 h
      have hcalls (k : Check) (c' : Call) := calls_iff_negation (w := w) hname hop hnext k c'
      have hnegated {name : String} (hps : negationPieces next = [.bytes 1, .call (.op 2 name false) .tested])
          (h : (d₁.consume mem >>= fun r => parseOp mem w 2 name false fuel r.2) = done (d, t)) :
          Sourced mem ⟨.type2Opcode, w, data⟩ (termTrees t) := by
        obtain ⟨⟨b', d₂⟩, hconsume, h⟩ := bind_eq_done.1 h
        refine .of_call (.op 2 name false) hun hdata (fun k c' => ?_) rfl h
        rw [hcalls, hps]
        refine ⟨fun h => ?_, .bytes (skip_of_consume hconsume)⟩
        cases h with
        | bytes hskip hamong =>
          cases hskip.symm.trans (skip_of_consume hconsume)
          exact hamong
      split at h
      case isTrue hlequal => exact hnegated (by rw [hlequal]; rfl) h
      split at h
      case isTrue hlgreater => exact hnegated (by rw [hlgreater]; rfl) h
      split at h
      case isTrue hlless => exact hnegated (by rw [hlless]; rfl) h
      case isFalse h₁ h₂ h₃ =>
        rw [negationPieces_of_ne h₁ h₂ h₃] at hcalls
        obtain ⟨⟨d₂, arg⟩, harg, h⟩ := bind_eq_done.1 h
        cases h
        have hreturns := hterm (f := .termArg) rfl harg
        cases arg with
        | none => exact .of_failed ((hcalls _ _).2 .here) hreturns
        | some arg =>
          refine .of_pieces hun hdata hd₁.le_end (fun k c' => (hcalls k c').2)
            (fun k c' h => .inl ((hcalls k c').1 h)) (.call hreturns (fun _ => by rintro ⟨⟩) .nil) ?_
          simp [termTrees]
    -- cond_ref_of
    case h_27 =>
      obtain ⟨⟨d₂, name⟩, hsuper, h⟩ := bind_eq_done.1 h
      obtain ⟨⟨d₃, target⟩, htarget, h⟩ := bind_eq_done.1 h
      cases h
      refine hpieces (by simp) (.call (hterm (f := .superName) rfl hsuper) (by simp)
        (.call (hterm (f := .target) rfl htarget) (by simp) .nil)) ?_
      simp
    -- sleep
    case h_28 =>
      obtain ⟨⟨d₂, msectime⟩, harg, h⟩ := bind_eq_done.1 h
      cases h
      refine hpieces (by simp) (.call (hterm (f := .termArg) rfl harg) (by simp) .nil) ?_
      simp
    -- acquire
    case h_29 =>
      obtain ⟨⟨d₂, arg⟩, harg, h⟩ := bind_eq_done.1 h
      obtain ⟨⟨timeout, d₃⟩, htimeout, h⟩ := bind_eq_done.1 h
      cases h
      refine hpieces (by simp) (.call (hterm (f := .superName) rfl harg) (by simp)
        (.bytes (skip_of_consumeNumber htimeout) .nil)) ?_
      simp
    -- release
    case h_30 =>
      obtain ⟨⟨d₂, arg⟩, harg, h⟩ := bind_eq_done.1 h
      cases h
      refine hpieces (by simp) (.call (hterm (f := .superName) rfl harg) (by simp) .nil) ?_
      simp
    case h_31 =>
      obtain ⟨_, -, h⟩ := bind_eq_done.1 h
      cases h
    all_goals exact hcall rfl rfl h

end Terms

/-! ## Names -/

/-- No operator begins like a name. -/
theorem not_operator_of_name {b : UInt8} {code : Opcode} (hb : data.peek mem = done b)
    (hstart : isNameStringStart b) (hop : data.consumeOpcode mem = done (code, d)) :
    operatorPieces code = [] ∧ code ≠ .lnot := by
  have hpeek := (consumeOpcode_eq_done hop).1
  obtain ⟨b', hb', hpeek⟩ := bind_eq_done.1 hpeek
  cases hb.symm.trans hb'
  have hchar {code : Opcode} (hcode : Opcode.ofNat b.toNat = code) :
      isNameStringStart (UInt8.ofNat code.toNat) := by
    rw [← hcode, Opcode.toNat_ofNat, UInt8.ofNat_toNat]
    exact hstart
  split at hpeek
  case isTrue hext => exact absurd (hchar hext) (by decide)
  case isFalse =>
    have hcode : Opcode.ofNat b.toNat = code := done.inj hpeek
    have hname := hchar hcode
    refine ⟨?_, ?_⟩
    · cases code <;> first | rfl | exact absurd hname (by decide)
    · rintro rfl
      exact absurd hname (by decide)

/-- The calls for a name: the name, and the arguments of a method -/
theorem calls_of_name {b : UInt8} (hb : data.peek mem = done b) (hstart : isNameStringStart b)
    (h : Calls mem k ⟨.type2Opcode, w, data⟩ c') :
    c' = ⟨.nameString, w, data⟩ ∨ ∃ d name n node, parseNameString mem data = done (d, name) ∧
      w.ns.lookupNode name = done (some n) ∧ w.get n = done node ∧ node.op = .method ∧
        Among mem (operands node.argCount) w d k c' := by
  cases h with
  | first hb' hdispatch =>
    cases hb.symm.trans hb'
    rw [ParseFunction.dispatch, if_pos hstart] at hdispatch
    cases hdispatch
    exact .inl rfl
  | body hamong => cases hamong
  | behind hop hamong =>
    rw [ParseFunction.behind, (not_operator_of_name hb hstart hop).1] at hamong
    cases hamong
  | negation hop => exact absurd rfl (not_operator_of_name hb hstart hop).2
  | argument _ _ hparse hlookup hget hmethod hamong =>
    exact .inr ⟨_, _, _, _, hparse, hlookup, hget, hmethod, hamong⟩
  | pkgLength _ hps => cases hps
  | inPackage _ hps => cases hps
  | object hlist => obtain h | h := hlist <;> cases h

section Terms

variable (hdata : data.begin_ ≤ data.end_)

include hdata

/-- **An object is looked up, or a method is called.** -/
theorem parseInvocation_sourced {b : UInt8} (hb : data.peek mem = done b) (hstart : isNameStringStart b)
    (h : parseType2Opcode mem w fuel data = done (d, t)) :
    Sourced mem ⟨.type2Opcode, w, data⟩ (termTrees t) := by
  obtain _ | fuel := fuel
  · rw [parseType2Opcode] at h
    cases h
  rw [parseType2Opcode, hb, done_bind, if_pos hstart] at h
  obtain ⟨⟨d₁, name⟩, hparse, h⟩ := bind_eq_done.1 h
  obtain ⟨found, hlookup, h⟩ := bind_eq_done.1 h
  cases found with
  | none =>
    cases h
    exact ⟨fun _ => .inl ⟨rfl, b, name, _, hb, hstart, hparse, hlookup⟩, fun h => absurd rfl h,
      fun h => absurd rfl h, by rintro _ ⟨⟩⟩
  | some n =>
    have hun : ¬ Unresolved mem ⟨.type2Opcode, w, data⟩ := by
      rintro ⟨-, _, name', d', -, -, hparse', hlookup'⟩
      cases hparse.symm.trans hparse'
      cases hlookup.symm.trans hlookup'
    obtain ⟨node, hget, h⟩ := bind_eq_done.1 h
    have hcalls {k : Check} {c' : Call} (h : Calls mem k ⟨.type2Opcode, w, data⟩ c') :
        Harmless mem c' ∨ node.op = .method ∧ Among mem (operands node.argCount) w d₁ k c' := by
      obtain rfl | ⟨d', name', n', node', hparse', hlookup', hget', hmethod, hamong⟩ :=
        calls_of_name hb hstart h
      · exact .inl (harmless_nameString hparse)
      · cases hparse.symm.trans hparse'
        cases hlookup.symm.trans hlookup'
        cases hget.symm.trans hget'
        exact .inr ⟨hmethod, hamong⟩
    split at h
    case isTrue hne =>
      cases h
      refine .of_harmless hun hdata (fun k c' h => ?_) (by simp)
      exact (hcalls h).resolve_right fun hmethod => hne hmethod.1
    case isFalse hmethod =>
      rw [not_not] at hmethod
      obtain ⟨⟨d₂, args⟩, hargs, h⟩ := bind_eq_done.1 h
      cases h
      have hd₁ := shorter_of_parseNameString hdata hparse
      have hin (k : Check) (c' : Call) (h : Among mem (operands node.argCount) w d₁ k c') :
          Calls mem k ⟨.type2Opcode, w, data⟩ c' := .argument hb hstart hparse hlookup hget hmethod h
      obtain ⟨ts, rfl, -, rs, hran, hts⟩ | ⟨rfl, c', w', d', hamong, hnone⟩ :=
        parseArgs_ran hd₁.le_end hargs
      · have hran := hran [] [] .nil
        rw [List.append_nil, List.append_nil] at hran
        refine .of_pieces hun hdata hd₁.le_end hin (fun k c' h => ?_) hran ?_
        · exact (hcalls h).symm.imp_left And.right
        · rw [nodesComplete_cons, and_iff_left nodesComplete_nil]
          exact hts
      · have hamong := hamong []
        rw [List.append_nil] at hamong
        exact .of_failed (hin _ _ hamong) hnone

theorem parseType2Opcode_sourced (h : parseType2Opcode mem w fuel data = done (d, t)) :
    Sourced mem ⟨.type2Opcode, w, data⟩ (termTrees t) := by
  by_cases hname : ∃ b, data.peek mem = done b ∧ isNameStringStart b
  · obtain ⟨b, hb, hstart⟩ := hname
    exact parseInvocation_sourced hdata hb hstart h
  · exact parseOperator_sourced hdata (fun b hb hstart => hname ⟨b, hb, hstart⟩) h

/-- **The calls of the parse functions for terms** -/
theorem term_sourced (hf : f.isTerm = true) (h : f.term mem fuel w data = done (d, t)) :
    Sourced mem ⟨f, w, data⟩ (termTrees t) := by
  cases f with
  | argOrLocal => exact parseArgOrLocal_sourced hdata h
  | superName => exact parseSuperName_sourced hdata h
  | dataObject => exact parseDataObject_sourced hdata h
  | dataRefObject => exact parseDataRefObject_sourced hdata h
  | target => exact parseTarget_sourced hdata h
  | op arity name tgt => exact parseOp_sourced hdata h
  | index => exact parseIndex_sourced hdata h
  | type6Opcode => exact parseType6Opcode_sourced hdata h
  | type2Opcode => exact parseType2Opcode_sourced hdata h
  | termArg => exact parseTermArg_sourced hdata h
  | _ => cases hf

end Terms

end Attos.Aml

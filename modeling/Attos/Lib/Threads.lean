import Attos.Lib.Reach
import Attos.Lib.Outcome

/-!
# Programs that share a state

A program is a sequence of accesses to a state. Others change the state between two of its accesses;
what they can do is a relation `rely`. The program is safe if each access of it is one that `guar`
allows and it ends with `post`, whatever the others do (`Safe`), so that it never aborts.

A main program is interrupted by handlers, each of which runs to its end while the main program
waits. If the main program and the handlers are safe, they are in every run (`Processor.invariant`).
-/

namespace Lib

/-- A program over the state `σ` that returns an `α`. -/
inductive Thread (σ α : Type) : Type where
  /-- the program returns -/
  | ret (a : α) : Thread σ α
  /-- a check of the program failed -/
  | abort : Thread σ α
  /-- the program changes the state, and goes on with what it was -/
  | access (next : σ → σ) (rest : σ → Thread σ α) : Thread σ α

namespace Thread

variable {σ α β : Type}

/-- One program after the other. -/
protected def bind : Thread σ α → (α → Thread σ β) → Thread σ β
  | ret a, f => f a
  | abort, _ => abort
  | access next rest, f => access next fun s => (rest s).bind f

instance : Monad (Thread σ) where
  pure := ret
  bind := Thread.bind

/-- Read from the state. -/
def read (g : σ → α) : Thread σ α := access id fun s => ret (g s)

/-- Change the state. -/
def write (next : σ → σ) : Thread σ Unit := access next fun _ => ret ()

/-- Abort unless `p` holds. -/
def require (p : Prop) [Decidable p] : Thread σ Unit := if p then ret () else abort

/-- The program runs alone. -/
def run : Thread σ α → σ → Outcome (α × σ)
  | ret a, s => .done (a, s)
  | abort, _ => .abort
  | access next rest, s => (rest s).run (next s)

/-- The program is safe from a state on. -/
def Safe (rely guar : σ → σ → Prop) (post : α → σ → Prop) : Thread σ α → σ → Prop
  | ret a, s => ∀ t, rely s t → post a t
  | abort, _ => False
  | access next rest, s => ∀ t, rely s t → guar t (next t) ∧ Safe rely guar post (rest t) (next t)

section Safe

variable {rely guar : σ → σ → Prop} {post : α → σ → Prop} {post' : β → σ → Prop} {p : Thread σ α} {s t : σ}

/-- What the others do does not matter. -/
theorem Safe.stable (htrans : ∀ {s t u}, rely s t → rely t u → rely s u) (h : Safe rely guar post p s)
    (hst : rely s t) : Safe rely guar post p t := by
  cases p with
  | ret a => exact fun u hu => h u (htrans hst hu)
  | abort => exact h
  | access next rest => exact fun u hu => h u (htrans hst hu)

/-- **One program after the other** is safe if the second one is, from where the first one ends. -/
theorem Safe.bind {f : α → Thread σ β} (hrefl : ∀ s, rely s s) (h : Safe rely guar post p s)
    (hf : ∀ a t, post a t → Safe rely guar post' (f a) t) : Safe rely guar post' (p >>= f) s := by
  induction p generalizing s with
  | ret a => exact hf a s (h s (hrefl s))
  | abort => exact h.elim
  | access next rest ih => exact fun t ht => ⟨(h t ht).1, ih t (h t ht).2⟩

/-- The same with a condition in between that is chosen. -/
theorem Safe.through (mid : α → σ → Prop) {f : α → Thread σ β} (hrefl : ∀ s, rely s s) (h : Safe rely guar mid p s)
    (hf : ∀ a t, mid a t → Safe rely guar post' (f a) t) : Safe rely guar post' (p >>= f) s := h.bind hrefl hf

/-- What a program ends with can be said in a weaker way. -/
theorem Safe.weaken {post' : α → σ → Prop} (h : Safe rely guar post p s) (hpost : ∀ a t, post a t → post' a t) :
    Safe rely guar post' p s := by
  induction p generalizing s with
  | ret a => exact fun t ht => hpost a t (h t ht)
  | abort => exact h
  | access next rest ih => exact fun t ht => ⟨(h t ht).1, ih t (h t ht).2⟩

theorem Safe.read {g : σ → α} (hguar : ∀ t, rely s t → guar t t)
    (h : ∀ t u, rely s t → rely t u → post (g t) u) : Safe rely guar post (Thread.read g) s :=
  fun t ht => ⟨hguar t ht, fun u hu => h t u ht hu⟩

theorem Safe.write {next : σ → σ} {post : Unit → σ → Prop} (hguar : ∀ t, rely s t → guar t (next t))
    (h : ∀ t u, rely s t → rely (next t) u → post () u) : Safe rely guar post (Thread.write next) s :=
  fun t ht => ⟨hguar t ht, fun u hu => h t u ht hu⟩

theorem Safe.require {c : Prop} [Decidable c] {post : Unit → σ → Prop} (hc : c) (h : ∀ t, rely s t → post () t) :
    Safe rely guar post (Thread.require c) s := by
  rw [Thread.require, if_pos hc]
  exact h

end Safe

end Thread

/-! ## A main program and handlers -/

/-- A main program, the handler that interrupts it, and the state. -/
structure Processor (σ : Type) : Type where
  /-- the rest of the main program -/
  main : Thread σ Unit
  /-- the rest of the handler, if there is one -/
  handler : Option (Thread σ Unit)
  /-- the state -/
  state : σ

namespace Processor

open Thread

variable {σ ν : Type}

/-- A step of the system. The environment `env` changes the state at any time. When no handler runs, the main
program goes on, it starts one of the programs that `calls` allows when it has come to its end, or
an interrupt `fires`. -/
inductive Step (env : σ → σ → Prop) (fires : ν → σ → σ → Prop) (isr : ν → Thread σ Unit)
    (calls : σ → Thread σ Unit → Prop) : Processor σ → Processor σ → Prop where
  /-- the environment does something -/
  | env {main : Thread σ Unit} {handler : Option (Thread σ Unit)} {s t : σ} :
      env s t → Step env fires isr calls ⟨main, handler, s⟩ ⟨main, handler, t⟩
  /-- the main program goes on -/
  | main {next : σ → σ} {rest : σ → Thread σ Unit} {s : σ} :
      Step env fires isr calls ⟨.access next rest, none, s⟩ ⟨rest s, none, next s⟩
  /-- the main program calls another one -/
  | call {p : Thread σ Unit} {s : σ} : calls s p → Step env fires isr calls ⟨.ret (), none, s⟩ ⟨p, none, s⟩
  /-- an interrupt fires -/
  | fire {main : Thread σ Unit} {n : ν} {s t : σ} :
      fires n s t → Step env fires isr calls ⟨main, none, s⟩ ⟨main, some (isr n), t⟩
  /-- the handler goes on -/
  | handler {main : Thread σ Unit} {next : σ → σ} {rest : σ → Thread σ Unit} {s : σ} :
      Step env fires isr calls ⟨main, some (.access next rest), s⟩ ⟨main, some (rest s), next s⟩
  /-- the handler returns -/
  | ret {main : Thread σ Unit} {s : σ} : Step env fires isr calls ⟨main, some (.ret ()), s⟩ ⟨main, none, s⟩

/-- The main program is safe, and so is the handler. When there is none, the state is `Idle`. -/
structure Inv (relyMain guarMain relyIsr guarIsr : σ → σ → Prop) (Idle Done : σ → Prop) (sys : Processor σ) : Prop where
  /-- the main program is safe -/
  main : Safe relyMain guarMain (fun _ => Done) sys.main sys.state
  /-- the handler is safe -/
  handler : ∀ p, sys.handler = some p → Safe relyIsr guarIsr (fun _ => Idle) p sys.state
  /-- no interrupt is handled -/
  idle : sys.handler = none → Idle sys.state

variable {env : σ → σ → Prop} {fires : ν → σ → σ → Prop} {isr : ν → Thread σ Unit} {calls : σ → Thread σ Unit → Prop}
  {relyMain guarMain relyIsr guarIsr : σ → σ → Prop} {Idle Done : σ → Prop} {init : Processor σ → Prop} {sys sys' : Processor σ}

/-- The conditions under which the programs are safe together. -/
structure Compatible (env : σ → σ → Prop) (fires : ν → σ → σ → Prop) (isr : ν → Thread σ Unit)
    (calls : σ → Thread σ Unit → Prop) (relyMain guarMain relyIsr guarIsr : σ → σ → Prop) (Idle Done : σ → Prop) :
    Prop where
  /-- there may be no one else -/
  refl_main : ∀ s, relyMain s s
  /-- the others may do more than one thing -/
  trans_main : ∀ {s t u}, relyMain s t → relyMain t u → relyMain s u
  /-- there may be no one else -/
  refl_isr : ∀ s, relyIsr s s
  /-- the others may do more than one thing -/
  trans_isr : ∀ {s t u}, relyIsr s t → relyIsr t u → relyIsr s u
  /-- the environment does what the programs rely on -/
  env_rely : ∀ {s t}, env s t → relyMain s t ∧ relyIsr s t ∧ (Idle s → Idle t)
  /-- the main program does not handle interrupts -/
  main_idle : ∀ {s t}, guarMain s t → Idle s → Idle t
  /-- the handlers do what the main program relies on -/
  isr_rely : ∀ {s t}, guarIsr s t → relyMain s t
  /-- an interrupt does, too, and its handler is safe -/
  fire_safe : ∀ {n s t}, fires n s t → Idle s → relyMain s t ∧ Safe relyIsr guarIsr (fun _ => Idle) (isr n) t
  /-- what the main program calls is safe -/
  call_safe : ∀ {s p}, calls s p → Idle s → Done s → Safe relyMain guarMain (fun _ => Done) p s

/-- **What one step keeps.** -/
theorem Inv.step (hcompat : Compatible env fires isr calls relyMain guarMain relyIsr guarIsr Idle Done)
    (h : Inv relyMain guarMain relyIsr guarIsr Idle Done sys) (hstep : Step env fires isr calls sys sys') :
    Inv relyMain guarMain relyIsr guarIsr Idle Done sys' := by
  obtain ⟨hmain, hhandler, hidle⟩ := h
  cases hstep with
  | env hst =>
    obtain ⟨hrely, hrely', hkeeps⟩ := hcompat.env_rely hst
    exact ⟨hmain.stable hcompat.trans_main hrely, fun p hp => (hhandler p hp).stable hcompat.trans_isr hrely',
      fun hnone => hkeeps (hidle hnone)⟩
  | main =>
    obtain ⟨hguar, hrest⟩ := hmain _ (hcompat.refl_main _)
    exact ⟨hrest, fun p hp => (by cases hp), fun hnone => hcompat.main_idle hguar (hidle hnone)⟩
  | call hcall =>
    have hdone := hmain _ (hcompat.refl_main _)
    exact ⟨hcompat.call_safe hcall (hidle rfl) hdone, fun p hp => (by cases hp), fun hnone => hidle hnone⟩
  | fire hfire =>
    obtain ⟨hrely, hsafe⟩ := hcompat.fire_safe hfire (hidle rfl)
    exact ⟨hmain.stable hcompat.trans_main hrely, fun p hp => (by cases hp; exact hsafe), fun hnone => (by cases hnone)⟩
  | handler =>
    obtain ⟨hguar, hrest⟩ := hhandler _ rfl _ (hcompat.refl_isr _)
    exact ⟨hmain.stable hcompat.trans_main (hcompat.isr_rely hguar), fun p hp => (by cases hp; exact hrest),
      fun hnone => (by cases hnone)⟩
  | ret =>
    have hend := hhandler _ rfl _ (hcompat.refl_isr _)
    exact ⟨hmain, fun p hp => (by cases hp), fun _ => hend⟩

/-- The main program comes to its end if nothing comes in between. -/
theorem run_main {p : Thread σ Unit} {s t : σ} (hrun : p.run s = .done ((), t))
    (h : Reach init (Step env fires isr calls) ⟨p, none, s⟩) : Reach init (Step env fires isr calls) ⟨.ret (), none, t⟩ := by
  induction p generalizing s with
  | ret a =>
    cases hrun
    exact h
  | abort => cases hrun
  | access next rest ih => exact ih s hrun (h.step .main)

/-- A handler comes to its end, and the main program goes on. -/
theorem run_handler {main p : Thread σ Unit} {s t : σ} (hrun : p.run s = .done ((), t))
    (h : Reach init (Step env fires isr calls) ⟨main, some p, s⟩) : Reach init (Step env fires isr calls) ⟨main, none, t⟩ := by
  induction p generalizing s with
  | ret a =>
    cases hrun
    exact h.step .ret
  | abort => cases hrun
  | access next rest ih => exact ih s hrun (h.step .handler)

/-- **The programs are safe in every run.** -/
theorem invariant (hcompat : Compatible env fires isr calls relyMain guarMain relyIsr guarIsr Idle Done)
    (hinit : ∀ sys, init sys → Inv relyMain guarMain relyIsr guarIsr Idle Done sys)
    (h : Reach init (Step env fires isr calls) sys) : Inv relyMain guarMain relyIsr guarIsr Idle Done sys :=
  h.invariant (Inv relyMain guarMain relyIsr guarIsr Idle Done) hinit fun _ _ h hstep => h.step hcompat hstep

end Processor

end Lib

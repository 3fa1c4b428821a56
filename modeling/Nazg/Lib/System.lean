import Mathlib.Logic.Basic

/-!
# Transition systems

A system is an initial state and a guarded step: an event that is not enabled in a
state leads nowhere. The same step serves the proofs, which go over the reachable
states by the invariant rule, and the traces, which are run to see where they end.
-/

namespace Nazg.Lib

structure System (σ ε : Type*) where
  init : σ
  step : σ → ε → Option σ

namespace System

variable {σ ε : Type*} {sys : System σ ε}

/-- The states that enabled events lead to. -/
inductive Reachable (sys : System σ ε) : σ → Prop where
  | init : Reachable sys sys.init
  | step {s s' : σ} {e : ε} : Reachable sys s → sys.step s e = some s' → Reachable sys s'

/-- What holds initially and is kept by every enabled event holds wherever a run leads. -/
theorem Reachable.invariant {p : σ → Prop} (hinit : p sys.init)
    (hstep : ∀ s e s', p s → sys.step s e = some s' → p s') {s : σ} (h : Reachable sys s) :
    p s := by
  induction h with
  | init => exact hinit
  | step _ hs ih => exact hstep _ _ _ ih hs

/-- The states that lead from the initial one by events which meet a condition on the
state they are taken in. -/
inductive ReachableBy (sys : System σ ε) (ok : σ → ε → Prop) : σ → Prop where
  | init : ReachableBy sys ok sys.init
  | step {s s' : σ} {e : ε} :
      ReachableBy sys ok s → ok s e → sys.step s e = some s' → ReachableBy sys ok s'

/-- The invariant rule for such runs: the condition is there at each step. -/
theorem ReachableBy.invariant {ok : σ → ε → Prop} {p : σ → Prop} (hinit : p sys.init)
    (hstep : ∀ s e s', p s → ok s e → sys.step s e = some s' → p s') {s : σ}
    (h : ReachableBy sys ok s) : p s := by
  induction h with
  | init => exact hinit
  | step _ hok hs ih => exact hstep _ _ _ ih hok hs

/-- The state at the end of a trace, if each of its events is enabled. -/
def run (sys : System σ ε) (s : σ) : List ε → Option σ
  | [] => some s
  | e :: es =>
      match sys.step s e with
      | none => none
      | some s => run sys s es

theorem Reachable.run {s s' : σ} {es : List ε} (hs : Reachable sys s)
    (h : sys.run s es = some s') : Reachable sys s' := by
  induction es generalizing s with
  | nil =>
      cases h
      exact hs
  | cons e es ih =>
      rw [System.run] at h
      split at h
      · cases h
      · next hstep => exact ih (.step hs hstep) h

end System

end Nazg.Lib

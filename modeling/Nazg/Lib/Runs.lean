import Mathlib.Data.List.Basic
import Mathlib.Data.List.Chain

/-!
# Runs of a deterministic machine

A machine takes one step for each call. `Throughout` is about the states of a run, the first
and the last included, `Always` about the calls, each in the state in which it is made.
Where a call keeps an invariant exactly if it meets a condition, a run keeps it throughout
exactly if all its calls meet the condition.
-/

namespace Nazg.Lib.Runs

variable {σ ι : Type*} (step : σ → ι → σ)

def run (s : σ) (calls : List ι) : σ := calls.foldl step s

def Throughout (inv : σ → Prop) (s : σ) : List ι → Prop
  | [] => inv s
  | c :: calls => inv s ∧ Throughout inv (step s c) calls

def Always (ok : σ → ι → Prop) (s : σ) : List ι → Prop
  | [] => True
  | c :: calls => ok s c ∧ Always ok (step s c) calls

variable {step} {inv : σ → Prop} {ok : σ → ι → Prop} {s : σ} {calls : List ι}

@[simp] theorem run_nil : run step s [] = s := rfl

@[simp] theorem run_cons (c : ι) : run step s (c :: calls) = run step (step s c) calls := rfl

theorem run_append (before after : List ι) :
    run step s (before ++ after) = run step (run step s before) after := by
  simp only [run, List.foldl_append]

theorem Throughout.first (h : Throughout step inv s calls) : inv s := by
  cases calls with
  | nil => exact h
  | cons c calls => exact h.1

theorem throughout_iff_prefix :
    Throughout step inv s calls ↔
      ∀ before after, calls = before ++ after → inv (run step s before) := by
  induction calls generalizing s with
  | nil =>
      constructor
      · intro h before after heq
        obtain ⟨rfl, -⟩ := List.append_eq_nil_iff.1 heq.symm
        exact h
      · intro h
        exact h [] [] rfl
  | cons c calls ih =>
      constructor
      · intro h before after heq
        cases before with
        | nil => exact h.1
        | cons b before =>
            rw [List.cons_append, List.cons.injEq] at heq
            obtain ⟨rfl, heq⟩ := heq
            exact ih.1 h.2 before after heq
      · intro h
        refine ⟨h [] (c :: calls) rfl, ih.2 fun before after heq => ?_⟩
        exact h (c :: before) after (by rw [heq, List.cons_append])

/-- Where something else that every step keeps is given, and a call is right exactly if it
meets the condition, a run is right throughout exactly if all its calls meet it. -/
theorem throughout_and_always_iff {side : σ → Prop} {right : σ → ι → Prop}
    (hside : ∀ s c, side s → side (step s c))
    (hstep : ∀ s c, side s → inv s → (right s c ∧ inv (step s c) ↔ ok s c)) (hs₀ : side s)
    (hs : inv s) :
    Throughout step inv s calls ∧ Always step right s calls ↔ Always step ok s calls := by
  induction calls generalizing s with
  | nil => exact iff_of_true ⟨hs, trivial⟩ trivial
  | cons c calls ih =>
      have hrest := hside s c hs₀
      have hiff := hstep s c hs₀ hs
      constructor
      · intro h
        have hnext := h.1.2.first
        exact ⟨hiff.1 ⟨h.2.1, hnext⟩, (ih hrest hnext).1 ⟨h.1.2, h.2.2⟩⟩
      · intro h
        obtain ⟨hright, hnext⟩ := hiff.2 h.1
        obtain ⟨hstates, hcalls⟩ := (ih hrest hnext).2 h.2
        exact ⟨⟨hs, hstates⟩, hright, hcalls⟩

theorem always_true : Always step (fun _ _ => True) s calls := by
  induction calls generalizing s with
  | nil => trivial
  | cons c calls ih => exact ⟨trivial, ih⟩

theorem always_append {before after : List ι} :
    Always step ok s (before ++ after) ↔
      Always step ok s before ∧ Always step ok (run step s before) after := by
  induction before generalizing s with
  | nil => rw [List.nil_append, Always, true_and, run_nil]
  | cons c before ih =>
      rw [List.cons_append, Always, Always, ih, run_cons, and_assoc]

theorem always_mono {p q : σ → ι → Prop} (h : ∀ s c, p s c → q s c)
    (hp : Always step p s calls) : Always step q s calls := by
  induction calls generalizing s with
  | nil => trivial
  | cons c calls ih => exact ⟨h s c hp.1, ih hp.2⟩

/-- The invariant alone. -/
theorem throughout_iff_always {side : σ → Prop} (hside : ∀ s c, side s → side (step s c))
    (hstep : ∀ s c, side s → inv s → (inv (step s c) ↔ ok s c)) (hs₀ : side s) (hs : inv s) :
    Throughout step inv s calls ↔ Always step ok s calls := by
  have hboth := @throughout_and_always_iff σ ι step inv ok s calls side (fun _ _ => True)
    hside (fun s c h₀ h => by rw [true_and]; exact hstep s c h₀ h) hs₀ hs
  rw [← hboth]
  exact ⟨fun h => ⟨h, always_true⟩, And.left⟩

/-- Where every call of the run is given to be of some kind. -/
theorem throughout_iff_always_of_given {side : σ → Prop} {given : σ → ι → Prop}
    (hside : ∀ s c, side s → inv s → given s c → ok s c → side (step s c))
    (hstep : ∀ s c, side s → inv s → given s c → (inv (step s c) ↔ ok s c)) (hs₀ : side s)
    (hs : inv s) (hgiven : Always step given s calls) :
    Throughout step inv s calls ↔ Always step ok s calls := by
  induction calls generalizing s with
  | nil => exact iff_of_true hs trivial
  | cons c calls ih =>
      have hiff := hstep s c hs₀ hs hgiven.1
      constructor
      · intro h
        have hnext := h.2.first
        have hok := hiff.1 hnext
        exact ⟨hok, (ih (hside s c hs₀ hs hgiven.1 hok) hnext hgiven.2).1 h.2⟩
      · intro h
        exact ⟨hs, (ih (hside s c hs₀ hs hgiven.1 h.1) (hiff.2 h.1) hgiven.2).2 h.2⟩

/-- Two conditions that agree on the calls that are given agree on a run of such calls. -/
theorem always_congr {given p q : σ → ι → Prop} (h : ∀ s c, given s c → (p s c ↔ q s c))
    (hgiven : Always step given s calls) : Always step p s calls ↔ Always step q s calls := by
  induction calls generalizing s with
  | nil => exact Iff.rfl
  | cons c calls ih => exact and_congr (h s c hgiven.1) (ih hgiven.2)

/-- Where a call that is right keeps what decides whether the next one is. -/
theorem always_iff_of_side {side : σ → Prop} {given : ι → Prop} {right : σ → ι → Prop}
    (hstep : ∀ s c, side s → given c → (right s c ↔ ok s c))
    (hside : ∀ s c, side s → given c → right s c → side (step s c)) (hs : side s)
    (hgiven : ∀ c ∈ calls, given c) : Always step right s calls ↔ Always step ok s calls := by
  induction calls generalizing s with
  | nil => exact Iff.rfl
  | cons c calls ih =>
      have hc := hgiven c List.mem_cons_self
      have hiff := hstep s c hs hc
      have hrest : right s c → (Always step right (step s c) calls ↔
          Always step ok (step s c) calls) := fun hright =>
        ih (hside s c hs hc hright) fun d hd => hgiven d (List.mem_cons_of_mem _ hd)
      exact ⟨fun h => ⟨hiff.1 h.1, (hrest h.1).1 h.2⟩,
        fun h => ⟨hiff.2 h.1, (hrest (hiff.2 h.1)).2 h.2⟩⟩

theorem Always.imp {ok' : σ → ι → Prop} (hok : ∀ s c, ok s c → ok' s c)
    (h : Always step ok s calls) : Always step ok' s calls := by
  induction calls generalizing s with
  | nil => trivial
  | cons c calls ih => exact ⟨hok s c h.1, ih h.2⟩

/-- Steps of any kind that make a number smaller come to an end. -/
theorem length_le_of_decreasing {r : σ → σ → Prop} {f : σ → Nat}
    (h : ∀ s s', r s s' → f s' < f s) {states : List σ} (hchain : (s :: states).IsChain r) :
    states.length ≤ f s := by
  induction states generalizing s with
  | nil => exact Nat.zero_le _
  | cons s' states ih =>
      obtain ⟨hstep, hrest⟩ := List.isChain_cons_cons.1 hchain
      have hlt := h s s' hstep
      have hle := ih hrest
      rw [List.length_cons]
      omega

end Nazg.Lib.Runs

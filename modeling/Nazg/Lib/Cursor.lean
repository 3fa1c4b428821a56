import Mathlib.Data.List.Basic
import Mathlib.Data.List.Infix

/-!
# Loops over a cursor

A loop that reads lines through a position shared with the loops it calls: each turn
looks at the line under the cursor and either leaves the loop, the cursor where it is,
or moves the cursor on, at least past that line. What is under the cursor and behind it
is a suffix of the lines, so the suffix stands for the position.

Every turn takes a line away, so as many turns as there are lines are enough, and
`run_cons` is the loop's equation without any count of turns in it.
-/

namespace Nazg.Lib

variable {α σ τ : Type*}

/-- One turn: `none` leaves the loop, otherwise the state and what is left behind the
line. -/
abbrev Turn (σ α : Type*) := σ → α → List α → Option (σ × List α)

/-- A turn moves the cursor forward only. -/
def Forward (turn : Turn σ α) : Prop :=
  ∀ s l ls s' ls', turn s l ls = some (s', ls') → ls' <:+ ls

def loop (turn : Turn σ α) : Nat → σ → List α → σ × List α
  | 0, s, ls => (s, ls)
  | _ + 1, s, [] => (s, [])
  | fuel + 1, s, l :: ls =>
      match turn s l ls with
      | none => (s, l :: ls)
      | some (s', ls') => loop turn fuel s' ls'

def run (turn : Turn σ α) (s : σ) (ls : List α) : σ × List α := loop turn ls.length s ls

theorem loop_fuel {turn : Turn σ α} (h : Forward turn) {m n : Nat} {s : σ} {ls : List α}
    (hm : ls.length ≤ m) (hn : ls.length ≤ n) : loop turn m s ls = loop turn n s ls := by
  induction m generalizing n s ls with
  | zero =>
      rw [List.length_eq_zero_iff.1 (Nat.le_zero.1 hm)]
      cases n <;> rfl
  | succ m ih =>
      cases ls with
      | nil => cases n <;> rfl
      | cons l ls =>
          rw [List.length_cons] at hm hn
          obtain ⟨n, rfl⟩ : ∃ k, n = k + 1 := ⟨n - 1, by omega⟩
          rw [loop, loop]
          cases hturn : turn s l ls with
          | none => rfl
          | some r =>
              have hle := (h s l ls r.1 r.2 hturn).length_le
              exact ih (by omega) (by omega)

@[simp] theorem run_nil (turn : Turn σ α) (s : σ) : run turn s [] = (s, []) := rfl

/-- The equation of the loop. -/
theorem run_cons {turn : Turn σ α} (h : Forward turn) (s : σ) (l : α) (ls : List α) :
    run turn s (l :: ls) =
      match turn s l ls with
      | none => (s, l :: ls)
      | some (s', ls') => run turn s' ls' := by
  rw [run, List.length_cons, loop]
  cases hturn : turn s l ls with
  | none => rfl
  | some r =>
      have hle := (h s l ls r.1 r.2 hturn).length_le
      exact loop_fuel h hle (Nat.le_refl _)

theorem run_of_none {turn : Turn σ α} (h : Forward turn) {s : σ} {l : α} {ls : List α}
    (hturn : turn s l ls = none) : run turn s (l :: ls) = (s, l :: ls) := by
  rw [run_cons h, hturn]

theorem run_of_some {turn : Turn σ α} (h : Forward turn) {s s' : σ} {l : α} {ls ls' : List α}
    (hturn : turn s l ls = some (s', ls')) : run turn s (l :: ls) = run turn s' ls' := by
  rw [run_cons h, hturn]

/-- The rule of the loop: what holds of the start and carries over every turn holds of
the end, where the lines have run out or the turn leaves. -/
theorem run_rule {turn : Turn σ α} (h : Forward turn) {p : σ → List α → Prop}
    (hturn : ∀ s l ls s' ls', p s (l :: ls) → turn s l ls = some (s', ls') → p s' ls')
    {s : σ} {ls : List α} (hp : p s ls) :
    p (run turn s ls).1 (run turn s ls).2 ∧
      ((run turn s ls).2 = [] ∨ ∃ l ls', (run turn s ls).2 = l :: ls' ∧
        turn (run turn s ls).1 l ls' = none) := by
  induction hlen : ls.length using Nat.strongRecOn generalizing s ls with
  | _ n ih =>
      subst hlen
      cases ls with
      | nil => exact ⟨hp, Or.inl rfl⟩
      | cons l ls =>
          cases hl : turn s l ls with
          | none =>
              rw [run_of_none h hl]
              exact ⟨hp, Or.inr ⟨l, ls, rfl, hl⟩⟩
          | some r =>
              have hle := (h s l ls r.1 r.2 hl).length_le
              rw [run_of_some h (hl.trans rfl : turn s l ls = some (r.1, r.2))]
              exact ih _ (Nat.lt_succ_of_le hle) (hturn _ _ _ _ _ hp hl) rfl

/-- A loop leaves its cursor on one of the lines it was given, or at their end. -/
theorem run_suffix {turn : Turn σ α} (h : Forward turn) (s : σ) (ls : List α) :
    (run turn s ls).2 <:+ ls :=
  (run_rule h (p := fun _ ls' => ls' <:+ ls)
    (fun _ l _ _ _ hp hl => ((h _ _ _ _ _ hl).trans (List.suffix_cons l _)).trans hp)
    List.suffix_rfl).1

/-- What every turn keeps of the state, the loop keeps. -/
theorem run_invariant {turn : Turn σ α} (h : Forward turn) {p : σ → Prop}
    (hturn : ∀ s l ls s' ls', p s → turn s l ls = some (s', ls') → p s') {s : σ} {ls : List α}
    (hp : p s) : p (run turn s ls).1 :=
  (run_rule h (p := fun s _ => p s) (fun _ _ _ _ _ => hturn _ _ _ _ _) hp).1

/-- Lines that no turn takes and no turn runs past stop the loop. -/
theorem run_barrier {turn : Turn σ α} (h : Forward turn) {rest : List α}
    (hstop : ∀ s l ls, rest = l :: ls → turn s l ls = none)
    (hturn : ∀ s l ls s' ls', rest <:+ ls → turn s l ls = some (s', ls') → rest <:+ ls')
    {s : σ} {ls : List α} (hrest : rest <:+ ls) : rest <:+ (run turn s ls).2 := by
  refine (run_rule h (p := fun _ ls => rest <:+ ls) ?_ hrest).1
  intro s l ls s' ls' hsuf hl
  rcases List.suffix_cons_iff.1 hsuf with heq | hsuf
  · rw [hstop s l ls heq] at hl
    cases hl
  · exact hturn _ _ _ _ _ hsuf hl

/-- A loop whose turns take one line each folds over the lines it takes. -/
theorem run_append_of_forall {turn : Turn σ α} (h : Forward turn) {f : σ → α → σ}
    {pre : List α} (hpre : ∀ l ∈ pre, ∀ s ls, turn s l ls = some (f s l, ls)) (s : σ)
    (rest : List α) : run turn s (pre ++ rest) = run turn (pre.foldl f s) rest := by
  induction pre generalizing s with
  | nil => rfl
  | cons l pre ih =>
      rw [List.cons_append, run_of_some h (hpre l List.mem_cons_self s _),
        ih fun x hx => hpre x (List.mem_cons_of_mem _ hx)]
      rfl

theorem run_of_skip {turn : Turn σ α} (h : Forward turn) {pre : List α}
    (hpre : ∀ l ∈ pre, ∀ s ls, turn s l ls = some (s, ls)) (s : σ) (rest : List α) :
    run turn s (pre ++ rest) = run turn s rest := by
  induction pre with
  | nil => rfl
  | cons l pre ih =>
      rw [List.cons_append, run_of_some h (hpre l List.mem_cons_self s _),
        ih fun x hx => hpre x (List.mem_cons_of_mem _ hx)]

theorem run_of_stop {turn : Turn σ α} (h : Forward turn) {s : σ} {rest : List α}
    (hstop : ∀ l ls, rest = l :: ls → turn s l ls = none) : run turn s rest = (s, rest) := by
  cases rest with
  | nil => rfl
  | cons l ls => exact run_of_none h (hstop l ls rfl)

/-- What a loop leaves in front of a barrier begins with a line at which it stopped, so
none of the lines that never stop it are left. -/
theorem run_leftover {turn : Turn σ α} (h : Forward turn) {p : α → Prop}
    (hnone : ∀ s l ls, turn s l ls = none → ¬ p l) {s : σ} {nested after rest : List α}
    (hnested : ∀ l ∈ nested, p l)
    (hrest : rest <:+ (run turn s (nested ++ (after ++ rest))).2) :
    ∃ left, left <:+ after ∧ (run turn s (nested ++ (after ++ rest))).2 = left ++ rest := by
  obtain ⟨pre, hpre⟩ := hrest
  obtain ⟨taken, htaken⟩ := run_suffix h s (nested ++ (after ++ rest))
  rw [← hpre, ← List.append_assoc, ← List.append_assoc nested, List.append_left_inj] at htaken
  refine ⟨pre, ?_, hpre.symm⟩
  rcases List.append_eq_append_iff.1 htaken with ⟨t, hn, ht⟩ | ⟨t, -, ht⟩
  · cases t with
    | nil => exact ⟨[], ht⟩
    | cons l t =>
        rw [List.cons_append] at ht
        rcases (run_rule h (p := fun _ _ => True) (fun _ _ _ _ _ _ _ => trivial) trivial).2 with
          hnil | ⟨x, ls, hcons, hstop⟩
        · rw [← hpre, ht] at hnil
          cases hnil
        · rw [← hpre, ht, List.cons_append, List.cons.injEq] at hcons
          rw [← hcons.1] at hstop
          exact absurd (hnested l (by rw [hn]; simp)) (hnone _ _ _ hstop)
  · exact ⟨t, ht.symm⟩

/-! ## Loops over positions

The same loops with the position itself. Reading behind the end is a fault, so is an iteration
that goes on without moving, and a loop that has not left when the fuel is used up.
-/

inductive CursorFault where
  | outOfBounds
  | noProgress
  | outOfFuel
  deriving DecidableEq

def readAt (xs : List α) (pos : Nat) : Except CursorFault α :=
  match xs[pos]? with
  | some x => .ok x
  | none => .error .outOfBounds

/-- `while (pos < size)`; the body leaves with `none`. -/
def whileLoop (size : Nat) (body : σ → Nat → Except CursorFault (Option (σ × Nat))) :
    Nat → σ → Nat → Except CursorFault (σ × Nat)
  | 0, _, _ => .error .outOfFuel
  | fuel + 1, s, pos =>
      if pos < size then
        match body s pos with
        | .error e => .error e
        | .ok none => .ok (s, pos)
        | .ok (some (s', pos')) =>
            if pos < pos' then whileLoop size body fuel s' pos' else .error .noProgress
      else .ok (s, pos)

/-- A state with the position of what is left of the lines. -/
def located (xs : List α) (r : σ × List α) : σ × Nat := (r.1, xs.length - r.2.length)

theorem drop_eq_of_suffix {xs ls : List α} (h : ls <:+ xs) : xs.drop (xs.length - ls.length) = ls :=
  (List.suffix_iff_eq_drop.1 h).symm

theorem readAt_of_drop {xs ls : List α} {l : α} {pos : Nat} (h : xs.drop pos = l :: ls) :
    readAt xs pos = .ok l := by
  have hget : xs[pos]? = some l := by
    rw [← List.head?_drop, h]
    rfl
  rw [readAt, hget]

/-- What is left behind a line begins at the next position. -/
theorem located_of_drop {xs ls : List α} {l : α} {pos : Nat} (h : xs.drop pos = l :: ls) (s : σ) :
    located xs (s, ls) = (s, pos + 1) := by
  have hlength := congrArg List.length h
  rw [List.length_drop, List.length_cons] at hlength
  rw [located]
  congr 1
  simp only
  omega

/-- A loop whose body does what a turn does, wherever it is, does what the turns do. -/
theorem whileLoop_eq_run {turn : Turn σ α} (h : Forward turn) {xs : List α}
    {body : σ → Nat → Except CursorFault (Option (σ × Nat))}
    (hbody : ∀ s pos l ls, xs.drop pos = l :: ls →
      body s pos = .ok ((turn s l ls).map (located xs))) {fuel : Nat} {s : σ} {pos : Nat}
    (hfuel : xs.length - pos < fuel) (hpos : pos ≤ xs.length) :
    whileLoop xs.length body fuel s pos = .ok (located xs (run turn s (xs.drop pos))) := by
  induction fuel generalizing s pos with
  | zero => omega
  | succ fuel ih =>
      rw [whileLoop]
      cases hdrop : xs.drop pos with
      | nil =>
          have hend : xs.length ≤ pos := List.drop_eq_nil_iff.1 hdrop
          have hlast : pos = xs.length := by omega
          rw [if_neg (by omega), run_nil, located, hlast]
          rfl
      | cons l ls =>
          have hlength := congrArg List.length hdrop
          rw [List.length_drop, List.length_cons] at hlength
          rw [if_pos (by omega), hbody s pos l ls hdrop]
          cases hturn : turn s l ls with
          | none =>
              rw [run_of_none h hturn, located, List.length_cons]
              simp only [Option.map_none]
              congr 2
              omega
          | some r =>
              have hsuffix := h s l ls r.1 r.2 hturn
              have hle := hsuffix.length_le
              have hls : ls <:+ xs :=
                (List.suffix_cons l ls).trans (hdrop ▸ List.drop_suffix pos xs)
              have hxs := drop_eq_of_suffix (hsuffix.trans hls)
              simp only [Option.map_some, located]
              rw [if_pos (by omega), ih (by omega) (by omega), hxs,
                run_of_some h (hturn.trans rfl : turn s l ls = some (r.1, r.2)), located]

end Nazg.Lib

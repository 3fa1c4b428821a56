import Mathlib.Data.Nat.Find
import Nazg.System.Process

/-!
# Commands with a timeout

What `run_command_with_timeout` reports is decided by the pauses of the output and not by the exit
of the child: it gives up behind the first pause that is longer than `poll` waits, however long the
child has run, and otherwise waits for the end of the output and then for the child, however long
that takes.
-/

namespace Nazg.Process

open Lib

/-! ## What a timeout is to do -/

/-- All that is written. -/
def Schedule.Complete (s : Schedule) (o : Bytes) : Prop :=
  ∃ n, (∀ t, n ≤ t → s.output t = []) ∧ o = (List.range n).flatMap s.output

/-- The child exits in time. -/
def Schedule.exitBy (s : Schedule) (t : Int) (status : WaitStatus) : Prop :=
  ∃ e : Nat, s.exit = some (e, status) ∧ e ≤ t

/-- A child that has exited in time is reported with its status and its output, and any other one
is killed. -/
structure Schedule.Judged (s : Schedule) (timeoutMs : Int64) (r : TimedResult) : Prop where
  inTime : ∀ status, s.exitBy timeoutMs.toInt status →
    r.exitCode = waitExitCode status ∧ ∃ o, s.Complete o ∧ r.output = dropNewline o
  late : (∀ status, ¬ s.exitBy timeoutMs.toInt status) → r.exitCode = 124 ∧ r.killed = true

/-- The function returns with this. -/
def MeetsTimeout (s : Schedule) (timeoutMs : Int64) (eintr : Bool) : Prop :=
  ∃ fuel r, runCommandWithTimeout s timeoutMs eintr fuel = some r ∧ s.Judged timeoutMs r

/-! ## Pauses -/

/-- From the start or from some output on, nothing is written for longer than the limit, and the
pipe stays open. -/
structure Schedule.Pause (s : Schedule) (limit : Option Nat) (t : Nat) : Prop where
  begins : t = 0 ∨ s.output t ≠ []
  outlasts : ∃ b, limit = some b ∧ (∀ u, t < u → u ≤ t + b → s.output u = []) ∧
    ∀ c, s.closed = some c → t + b < c

structure Schedule.FirstPause (s : Schedule) (limit : Option Nat) (t : Nat) : Prop where
  pause : s.Pause limit t
  first : ∀ u, u < t → ¬ s.Pause limit u

/-! ## The loop -/

/-- What has been read before a time. -/
def Schedule.before (s : Schedule) (time : Nat) : Bytes := (List.range time).flatMap s.output

/-- When `poll` was called that waits at a time. -/
def Schedule.polledAt (s : Schedule) : Nat → Nat
  | 0 => 0
  | time + 1 => if s.output time ≠ [] then time else s.polledAt time

/-- The loop goes on at a time. -/
structure Schedule.GoesOn (s : Schedule) (limit : Option Nat) (time : Nat) : Prop where
  opened : ∀ c, s.closed = some c → time ≤ c
  waits : ∀ b, limit = some b → time ≤ s.polledAt time + b
  more : s.output time ≠ [] ∨ s.closed ≠ some time

variable {s : Schedule} {limit : Option Nat} {eintr : Bool}

theorem before_succ (s : Schedule) (time : Nat) :
    s.before (time + 1) = s.before time ++ s.output time := by
  rw [Schedule.before, List.range_succ, List.flatMap_append, List.flatMap_singleton]
  rfl

theorem pollLoop_of_goesOn {time : Nat} (h : s.GoesOn limit time) (fuel : Nat) :
    pollLoop s limit eintr (fuel + 1) (s.polledAt time) time (s.before time) =
      pollLoop s limit eintr fuel (s.polledAt (time + 1)) (time + 1) (s.before (time + 1)) := by
  have hopen : ¬ s.closed.any (· < time) = true := by
    cases hclosed : s.closed with
    | none => simp
    | some c => simpa using h.opened c hclosed
  have hwait : ¬ limit.any (s.polledAt time + · < time) = true := by
    cases hlimit : limit with
    | none => simp
    | some b => simpa using h.waits b hlimit
  rw [pollLoop, if_neg hopen, if_neg hwait, before_succ, Schedule.polledAt]
  by_cases hout : s.output time = []
  · rw [if_neg (not_not.2 hout), if_neg (h.more.resolve_left (not_not.2 hout)),
      if_neg (not_not.2 hout), hout, List.append_nil]
  · rw [if_pos hout, if_pos hout]

/-- As long as it goes on, the loop takes a unit of fuel for each millisecond. -/
theorem pollLoop_eq {time : Nat} (h : ∀ t, t < time → s.GoesOn limit t) (fuel : Nat) :
    pollLoop s limit eintr (fuel + time) 0 0 [] =
      pollLoop s limit eintr fuel (s.polledAt time) time (s.before time) := by
  induction time generalizing fuel with
  | zero => rfl
  | succ time ih =>
      have hfuel : fuel + (time + 1) = (fuel + 1) + time := by omega
      rw [hfuel, ih (fun t ht => h t (by omega)), pollLoop_of_goesOn (h time (by omega))]

/-- Where it never stops it does not return. -/
theorem pollLoop_of_forall (h : ∀ t, s.GoesOn limit t) (fuel : Nat) :
    pollLoop s limit eintr fuel 0 0 [] = none := by
  have hloop : pollLoop s limit eintr (0 + fuel) 0 0 [] =
      pollLoop s limit eintr 0 (s.polledAt fuel) fuel (s.before fuel) :=
    pollLoop_eq (fun t _ => h t) 0
  rw [Nat.zero_add] at hloop
  rw [hloop, pollLoop]

/-- More fuel changes nothing. -/
theorem pollLoop_mono {fuel start time : Nat} {output : Bytes} {x : Ending × Bytes}
    (h : pollLoop s limit eintr fuel start time output = some x) (more : Nat) :
    pollLoop s limit eintr (fuel + more) start time output = some x := by
  induction fuel generalizing start time output with
  | zero => cases h
  | succ fuel ih =>
      have hfuel : fuel + 1 + more = (fuel + more) + 1 := by omega
      rw [pollLoop] at h
      rw [hfuel, pollLoop]
      split_ifs at h ⊢
      · exact ih h
      · exact h
      · exact h
      · exact ih h
      · exact ih h
      · exact h
      · exact ih h

theorem pollLoop_unique {m n : Nat} {x y : Ending × Bytes}
    (hx : pollLoop s limit eintr m 0 0 [] = some x)
    (hy : pollLoop s limit eintr n 0 0 [] = some y) : x = y := by
  have hmore := pollLoop_mono hx n
  rw [Nat.add_comm, pollLoop_mono hy m] at hmore
  exact (Option.some.inj hmore).symm

/-! ## Pauses and the loop -/

theorem polledAt_begins (s : Schedule) (time : Nat) :
    s.polledAt time = 0 ∨ s.output (s.polledAt time) ≠ [] := by
  induction time with
  | zero => exact Or.inl rfl
  | succ time ih =>
      rw [Schedule.polledAt]
      split
      · next hout => exact Or.inr hout
      · exact ih

theorem output_of_polledAt_lt {time u : Nat} (hlow : s.polledAt time < u) (hhigh : u < time) :
    s.output u = [] := by
  induction time with
  | zero => omega
  | succ time ih =>
      rw [Schedule.polledAt] at hlow
      split at hlow
      · omega
      · next hout =>
          by_cases hu : u = time
          · rw [hu]
            exact not_not.1 hout
          · exact ih hlow (by omega)

theorem polledAt_eq {t time : Nat} (hbegins : t = 0 ∨ s.output t ≠ [])
    (hquiet : ∀ u, t < u → u < time → s.output u = []) (ht : t < time) : s.polledAt time = t := by
  induction time with
  | zero => omega
  | succ time ih =>
      rw [Schedule.polledAt]
      by_cases hlast : t = time
      · subst hlast
        split
        · rfl
        · next hout =>
            have hzero := hbegins.resolve_right hout
            rw [hzero]
            rfl
      · rw [if_neg (not_not.2 (hquiet time (by omega) (by omega)))]
        exact ih (fun u hlow hhigh => hquiet u hlow (by omega)) (by omega)

/-- A wait that has taken too long is a pause. -/
theorem pause_of_late {time b : Nat} (hlimit : limit = some b)
    (hopen : ∀ c, s.closed = some c → time ≤ c) (hlate : s.polledAt time + b < time) :
    s.Pause limit (s.polledAt time) where
  begins := polledAt_begins s time
  outlasts := ⟨b, hlimit, fun u hlow hhigh => output_of_polledAt_lt hlow (by omega),
    fun c hc => by have hle := hopen c hc; omega⟩

theorem goesOn_of_firstPause {t b time : Nat} (h : s.FirstPause limit t) (hlimit : limit = some b)
    (htime : time ≤ t + b) : s.GoesOn limit time := by
  obtain ⟨b', hb', -, hclosed⟩ := h.pause.outlasts
  have hb : b' = b := Option.some.inj (hb'.symm.trans hlimit)
  subst hb
  have hopen : ∀ c, s.closed = some c → time ≤ c := fun c hc => by
    have hlt := hclosed c hc
    omega
  refine ⟨hopen, fun b hlimit' => ?_, Or.inr fun hc => ?_⟩
  · have heq : b = b' := Option.some.inj (hlimit'.symm.trans hlimit)
    subst heq
    by_contra hlate
    refine h.first (s.polledAt time) (by omega) (pause_of_late hlimit hopen (by omega))
  · have hlt := hclosed time hc
    omega

/-- The loop gives up behind the first pause. -/
theorem pollLoop_of_firstPause {t b : Nat} (h : s.FirstPause limit t) (hlimit : limit = some b) :
    pollLoop s limit eintr (1 + (t + b + 1)) 0 0 [] = some (.timedOut (t + b), s.before (t + 1)) := by
  obtain ⟨b', hb', hquiet, hclosed⟩ := h.pause.outlasts
  have hb : b' = b := Option.some.inj (hb'.symm.trans hlimit)
  subst hb
  have hpolled : s.polledAt (t + b' + 1) = t :=
    polledAt_eq h.pause.begins (fun u hlow hhigh => hquiet u hlow (by omega)) (by omega)
  have hopen : ¬ s.closed.any (· < t + b' + 1) = true := by
    cases hc : s.closed with
    | none => simp
    | some c =>
        have hlt := hclosed c hc
        simp only [Option.any_some, decide_eq_true_eq]
        omega
  have hlate : limit.any (t + · < t + b' + 1) = true := by
    rw [hlimit, Option.any_some, decide_eq_true_eq]
    omega
  have hread : ∀ n, n ≤ b' → s.before (t + n + 1) = s.before (t + 1) := by
    intro n hn
    induction n with
    | zero => rfl
    | succ n ih =>
        rw [before_succ, ← Nat.add_assoc, ih (by omega), hquiet _ (by omega) (by omega),
          List.append_nil]
  rw [pollLoop_eq fun time htime => goesOn_of_firstPause h hlimit (by omega), hpolled, pollLoop,
    if_neg hopen, if_pos hlate, hread b' (le_refl _)]
  rfl

/-! ## The end of the output -/

/-- When the end of the output is seen: at once, or behind what comes in with it. -/
def Schedule.endAt (s : Schedule) (c : Nat) : Nat := if s.output c = [] then c else c + 1

section Closed

variable {c : Nat} (hclosed : s.closed = some c)

include hclosed

theorem waits_of_noPause (hpause : ∀ t, ¬ s.Pause limit t) {time : Nat} (htime : time ≤ c) :
    ∀ b, limit = some b → time ≤ s.polledAt time + b := by
  intro b hlimit
  by_contra hlate
  refine hpause _ (pause_of_late hlimit (fun d hd => ?_) (Nat.lt_of_not_le hlate))
  have hcd : c = d := Option.some.inj (hclosed.symm.trans hd)
  omega

theorem goesOn_of_noPause (hpause : ∀ t, ¬ s.Pause limit t) {time : Nat}
    (htime : time < s.endAt c) : s.GoesOn limit time := by
  have hle : time ≤ c := by
    rw [Schedule.endAt] at htime
    split at htime
    · omega
    · omega
  refine ⟨fun d hd => ?_, waits_of_noPause hclosed hpause hle, ?_⟩
  · have hcd : c = d := Option.some.inj (hclosed.symm.trans hd)
    omega
  · rw [Schedule.endAt] at htime
    split at htime
    · right
      rw [hclosed, ne_eq, Option.some_inj]
      omega
    · next hout =>
        by_cases hlast : time = c
        · rw [hlast]
          exact Or.inl hout
        · right
          rw [hclosed, ne_eq, Option.some_inj]
          omega

theorem pollLoop_endAt (hpause : ∀ t, ¬ s.Pause limit t) (fuel : Nat) (output : Bytes) :
    pollLoop s limit eintr (fuel + 1) (s.polledAt (s.endAt c)) (s.endAt c) output =
      if eintr then pollLoop s limit eintr fuel (s.polledAt (s.endAt c)) (s.endAt c) output
      else some (.endOfFile, output) := by
  rw [pollLoop]
  by_cases hout : s.output c = []
  · have hend : s.endAt c = c := if_pos hout
    have hwait : ¬ limit.any (s.polledAt c + · < c) = true := by
      cases hlimit : limit with
      | none => simp
      | some b => simpa using waits_of_noPause hclosed hpause (le_refl c) b hlimit
    rw [hend, if_neg (by simp [hclosed]), if_neg hwait, if_neg (not_not.2 hout), if_pos hclosed]
  · have hend : s.endAt c = c + 1 := if_neg hout
    rw [hend, if_pos (by simp [hclosed])]

omit hclosed in
theorem before_endAt (s : Schedule) (c : Nat) : s.before (s.endAt c) = s.before (c + 1) := by
  rw [Schedule.endAt]
  split
  · next hout => rw [before_succ, hout, List.append_nil]
  · rfl

theorem complete_closed : s.Complete (s.before (c + 1)) :=
  ⟨c + 1, fun t ht => s.quiet c hclosed t ht, rfl⟩

/-- Without a pause the loop reads all of the output. -/
theorem pollLoop_of_closed (hpause : ∀ t, ¬ s.Pause limit t) :
    pollLoop s limit false (1 + s.endAt c) 0 0 [] = some (.endOfFile, s.before (c + 1)) := by
  rw [pollLoop_eq fun time htime => goesOn_of_noPause hclosed hpause htime,
    pollLoop_endAt hclosed hpause 0, before_endAt]
  rfl

/-- A closed pipe is polled again and again where `errno` is left from an earlier call. -/
theorem pollLoop_of_eintr (hpause : ∀ t, ¬ s.Pause limit t) (fuel : Nat) :
    pollLoop s limit true fuel 0 0 [] = none := by
  have hspin : ∀ fuel output,
      pollLoop s limit true fuel (s.polledAt (s.endAt c)) (s.endAt c) output = none := by
    intro fuel output
    induction fuel with
    | zero => rfl
    | succ fuel ih => rw [pollLoop_endAt hclosed hpause, if_pos rfl, ih]
  cases hloop : pollLoop s limit true fuel 0 0 [] with
  | none => rfl
  | some x =>
      have hmore := pollLoop_mono hloop (s.endAt c)
      rw [pollLoop_eq fun time htime => goesOn_of_noPause hclosed hpause htime, hspin] at hmore
      cases hmore

end Closed

/-- An output that goes on for ever without a pause is read for ever. -/
theorem pollLoop_of_open (hclosed : s.closed = none) (hpause : ∀ t, ¬ s.Pause limit t)
    (fuel : Nat) : pollLoop s limit eintr fuel 0 0 [] = none := by
  refine pollLoop_of_forall (fun time => ⟨?_, fun b hlimit => ?_, ?_⟩) fuel
  · simp [hclosed]
  · by_contra hlate
    exact hpause _ (pause_of_late hlimit (by simp [hclosed]) (Nat.lt_of_not_le hlate))
  · simp [hclosed]

/-! ## What is reported -/

/-- What the timeout decides by. -/
def Decided (s : Schedule) (timeoutMs : Int64) (eintr : Bool) : Prop :=
  (∀ status, s.exitBy timeoutMs.toInt status →
    (s.closed ≠ none ∧ (∀ t, ¬ s.Pause (pollBudget timeoutMs) t) ∧ eintr = false) ∨
      ∃ t, s.FirstPause (pollBudget timeoutMs) t ∧ waitExitCode status = 124 ∧
        ∃ o, s.Complete o ∧ s.before (t + 1) = dropNewline o) ∧
    ((∀ status, ¬ s.exitBy timeoutMs.toInt status) →
      ∃ t b, pollBudget timeoutMs = some b ∧ s.FirstPause (pollBudget timeoutMs) t ∧
        s.runningAt (t + b) = true)

theorem firstPause_or_none (s : Schedule) (limit : Option Nat) :
    (∃ t, s.FirstPause limit t) ∨ ∀ t, ¬ s.Pause limit t := by
  classical
  by_cases h : ∃ t, s.Pause limit t
  · exact Or.inl ⟨Nat.find h, Nat.find_spec h, fun u hu => Nat.find_min h hu⟩
  · exact Or.inr (not_exists.1 h)

theorem meetsTimeout_iff_of_loop {timeoutMs : Int64} {fuel : Nat} {x : Ending × Bytes}
    (hloop : pollLoop s (pollBudget timeoutMs) eintr fuel 0 0 [] = some x) :
    MeetsTimeout s timeoutMs eintr ↔ ∃ r, s.report x = some r ∧ s.Judged timeoutMs r := by
  constructor
  · rintro ⟨n, r, hr, hjudged⟩
    obtain ⟨y, hy, hr⟩ := Option.bind_eq_some_iff.1 hr
    rw [← pollLoop_unique hloop hy] at hr
    exact ⟨r, hr, hjudged⟩
  · rintro ⟨r, hr, hjudged⟩
    exact ⟨fuel, r, by rw [runCommandWithTimeout, hloop, Option.bind_some, hr], hjudged⟩

theorem not_meetsTimeout_of_loop {timeoutMs : Int64}
    (hloop : ∀ fuel, pollLoop s (pollBudget timeoutMs) eintr fuel 0 0 [] = none) :
    ¬ MeetsTimeout s timeoutMs eintr := by
  rintro ⟨fuel, r, hr, -⟩
  rw [runCommandWithTimeout, hloop] at hr
  cases hr

theorem exitBy_unique {t : Int} {status status' : WaitStatus} (h : s.exitBy t status)
    (h' : s.exitBy t status') : status = status' := by
  obtain ⟨e, he, -⟩ := h
  obtain ⟨e', he', -⟩ := h'
  exact (Prod.mk.inj (Option.some.inj (he.symm.trans he'))).2

theorem complete_unique {o o' : Bytes} (h : s.Complete o) (h' : s.Complete o') : o = o' := by
  have hbefore : ∀ {n m : Nat}, (∀ t, n ≤ t → s.output t = []) → n ≤ m →
      s.before m = s.before n := by
    intro n m hn hle
    induction m, hle using Nat.le_induction with
    | base => rfl
    | succ m hm ih => rw [before_succ, ih, hn m hm, List.append_nil]
  obtain ⟨n, hn, rfl⟩ := h
  obtain ⟨m, hm, rfl⟩ := h'
  rcases Nat.le_total n m with hle | hle
  · exact (hbefore hn hle).symm
  · exact hbefore hm hle

section Verdict

variable {timeoutMs : Int64}

/-- The verdict on a command that is given up. -/
theorem judged_timedOut_iff {time : Nat} {output : Bytes} :
    (∃ r, s.report (.timedOut time, output) = some r ∧ s.Judged timeoutMs r) ↔
      (∀ status, s.exitBy timeoutMs.toInt status →
        waitExitCode status = 124 ∧ ∃ o, s.Complete o ∧ output = dropNewline o) ∧
        ((∀ status, ¬ s.exitBy timeoutMs.toInt status) → s.runningAt time = true) := by
  constructor
  · rintro ⟨r, hr, hjudged⟩
    obtain rfl := Option.some.inj hr
    exact ⟨fun status hexit => ⟨(hjudged.inTime status hexit).1.symm, (hjudged.inTime status hexit).2⟩,
      fun hlate => (hjudged.late hlate).2⟩
  · rintro ⟨hexit, hlate⟩
    exact ⟨_, rfl, fun status h => ⟨(hexit status h).1.symm, (hexit status h).2⟩,
      fun h => ⟨rfl, hlate h⟩⟩

/-- The verdict on a command whose output has ended. -/
theorem judged_endOfFile_iff {output : Bytes} (hcomplete : s.Complete output) :
    (∃ r, s.report (.endOfFile, output) = some r ∧ s.Judged timeoutMs r) ↔
      ∃ status, s.exitBy timeoutMs.toInt status := by
  constructor
  · rintro ⟨r, hr, hjudged⟩
    by_contra hlate
    have hkilled := (hjudged.late (not_exists.1 hlate)).2
    cases hexit : s.exit with
    | none =>
        rw [Schedule.report, hexit] at hr
        cases hr
    | some x =>
        rw [Schedule.report, hexit] at hr
        obtain rfl := Option.some.inj hr
        cases hkilled
  · rintro ⟨status, e, hexit, hle⟩
    have hreport : s.report (.endOfFile, output) =
        some ⟨waitExitCode status, dropNewline output, false⟩ := by
      rw [Schedule.report, hexit]
    refine ⟨_, hreport, fun status' hexit' => ?_, fun hlate => absurd ⟨e, hexit, hle⟩ (hlate status)⟩
    rw [exitBy_unique hexit' ⟨e, hexit, hle⟩]
    exact ⟨rfl, output, hcomplete, rfl⟩

end Verdict

/-- The timeout is kept exactly if the pauses of the output decide rightly. -/
theorem meetsTimeout_iff (s : Schedule) (timeoutMs : Int64) (eintr : Bool) :
    MeetsTimeout s timeoutMs eintr ↔ Decided s timeoutMs eintr := by
  rcases firstPause_or_none s (pollBudget timeoutMs) with ⟨t, hfirst⟩ | hpause
  · obtain ⟨b, hlimit, -⟩ := hfirst.pause.outlasts
    have honly : ∀ {u}, s.FirstPause (pollBudget timeoutMs) u → u = t := by
      intro u hu
      by_contra hne
      rcases Nat.lt_or_gt_of_ne hne with hlt | hlt
      · exact hfirst.first u hlt hu.pause
      · exact hu.first t hlt hfirst.pause
    rw [meetsTimeout_iff_of_loop (pollLoop_of_firstPause hfirst hlimit), judged_timedOut_iff, Decided]
    constructor
    · rintro ⟨hexit, hlate⟩
      exact ⟨fun status h => Or.inr ⟨t, hfirst, hexit status h⟩,
        fun h => ⟨t, b, hlimit, hfirst, hlate h⟩⟩
    · rintro ⟨hexit, hlate⟩
      refine ⟨fun status h => ?_, fun h => ?_⟩
      · rcases hexit status h with ⟨-, hnone, -⟩ | ⟨u, hu, hmatch⟩
        · exact absurd hfirst.pause (hnone t)
        · rw [honly hu] at hmatch
          exact hmatch
      · obtain ⟨u, b', hb', hu, hrunning⟩ := hlate h
        have hb : b' = b := Option.some.inj (hb'.symm.trans hlimit)
        rw [honly hu, hb] at hrunning
        exact hrunning
  · have hdecided : Decided s timeoutMs eintr ↔
        (∃ status, s.exitBy timeoutMs.toInt status) ∧ s.closed ≠ none ∧ eintr = false := by
      constructor
      · rintro ⟨hexit, hlate⟩
        by_cases h : ∃ status, s.exitBy timeoutMs.toInt status
        · obtain ⟨status, hs⟩ := h
          rcases hexit status hs with ⟨hclosed, -, heintr⟩ | ⟨u, hu, -⟩
          · exact ⟨⟨status, hs⟩, hclosed, heintr⟩
          · exact absurd hu.pause (hpause u)
        · obtain ⟨u, -, -, hu, -⟩ := hlate (not_exists.1 h)
          exact absurd hu.pause (hpause u)
      · rintro ⟨⟨status, hs⟩, hclosed, heintr⟩
        exact ⟨fun _ _ => Or.inl ⟨hclosed, hpause, heintr⟩, fun h => absurd hs (h status)⟩
    rw [hdecided]
    cases hclosed : s.closed with
    | none =>
        exact iff_of_false (not_meetsTimeout_of_loop (pollLoop_of_open hclosed hpause))
          fun h => h.2.1 rfl
    | some c =>
        cases eintr with
        | true =>
            exact iff_of_false (not_meetsTimeout_of_loop (pollLoop_of_eintr hclosed hpause))
              fun h => absurd h.2.2 (by decide)
        | false =>
            rw [meetsTimeout_iff_of_loop (pollLoop_of_closed hclosed hpause),
              judged_endOfFile_iff (complete_closed hclosed)]
            simp

/-! ## Commands that are done in time -/

theorem pollBudget_of_lt {timeoutMs : Int64} (hpos : 0 < timeoutMs.toInt)
    (hlt : timeoutMs.toInt < 2 ^ 31) : pollBudget timeoutMs = some timeoutMs.toInt.toNat := by
  have hcast : timeoutMs.toInt32.toInt = timeoutMs.toInt := by
    rw [Int64.toInt_toInt32]
    exact Int.bmod_eq_of_le_mul_two (by omega) (by omega)
  have hnonneg : ¬ timeoutMs.toInt32 < 0 := by
    rw [Int32.lt_iff_toInt_lt, hcast]
    show ¬ timeoutMs.toInt < 0
    omega
  have hset : 0 < timeoutMs := Int64.lt_iff_toInt_lt.2 hpos
  simp only [pollBudget, if_pos hset, if_neg hnonneg, hcast]

/-- A child that has closed its output and exited in time is reported, for timeouts up to 24 days. -/
theorem meetsTimeout_of_closed {timeoutMs : Int64} (hpos : 0 < timeoutMs.toInt)
    (hlt : timeoutMs.toInt < 2 ^ 31) {c : Nat} (hclosed : s.closed = some c)
    (hc : c ≤ timeoutMs.toInt) {status : WaitStatus} (hexit : s.exitBy timeoutMs.toInt status) :
    MeetsTimeout s timeoutMs false := by
  have hpause : ∀ t, ¬ s.Pause (pollBudget timeoutMs) t := by
    rintro t ⟨-, b, hb, -, hopen⟩
    rw [pollBudget_of_lt hpos hlt] at hb
    have hend := hopen c hclosed
    have hlimit := Option.some.inj hb
    omega
  rw [meetsTimeout_iff_of_loop (pollLoop_of_closed hclosed hpause),
    judged_endOfFile_iff (complete_closed hclosed)]
  exact ⟨status, hexit⟩

/-! ## A command that keeps talking -/

/-- Something at every millisecond, and the end behind that. -/
def talking : Schedule where
  output := fun t => if t ≤ 4 then [97] else []
  closed := some 5
  exit := some (5, .exited 0)
  quiet := by
    rintro c ⟨⟩ t ht
    exact if_neg (by omega)

/-- It runs for longer than the timeout and is reported with its own status. -/
theorem talking_not_stopped : ¬ MeetsTimeout talking 3 false := by
  have hlimit : pollBudget 3 = some 3 := by decide
  have hpause : ∀ t, ¬ talking.Pause (pollBudget 3) t := by
    rintro t ⟨-, b, hb, hquiet, hopen⟩
    rw [hlimit] at hb
    cases hb
    have hend := hopen 5 rfl
    have hnext : (if t + 1 ≤ 4 then [97] else []) = ([] : Bytes) :=
      hquiet (t + 1) (by omega) (by omega)
    rw [if_pos (by omega)] at hnext
    cases hnext
  rw [meetsTimeout_iff_of_loop (pollLoop_of_closed rfl hpause),
    judged_endOfFile_iff (complete_closed rfl)]
  rintro ⟨status, e, hexit, hle⟩
  cases hexit
  exact absurd hle (by decide)

end Nazg.Process

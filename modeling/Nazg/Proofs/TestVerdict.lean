import Nazg.Proofs.CTestLines
import Nazg.Proofs.PytestLines

/-!
# When a test run is reported as it went

Each line of a report counts for one case of its status, and the command fails if a case has
failed or was an error. That loses a failing run where a line is not read, or read with
another status, and where the test process fails although no case did. The counters add up
only if they did so before the first line, and nothing initialises them.
-/

namespace Nazg.Testsuite

open Lib Capture

/-! ## Counting -/

def Counters.countAll (c : Counters) (statuses : List TestStatus) : Counters :=
  statuses.foldl Counters.count c

/-- The total is the sum of the others. -/
def Counters.Balanced (c : Counters) : Prop :=
  c.total = c.passed + c.failed + c.skipped + c.errors

theorem total_countAll (c : Counters) (statuses : List TestStatus) :
    (c.countAll statuses).total = c.total + statuses.length := by
  induction statuses generalizing c with
  | nil => simp [Counters.countAll]
  | cons st statuses ih =>
      have hone : (c.count st).total = c.total + 1 := by cases st <;> rfl
      rw [Counters.countAll, List.foldl_cons, ← Counters.countAll, ih, hone, List.length_cons]
      omega

theorem balanced_countAll (c : Counters) (statuses : List TestStatus) :
    (c.countAll statuses).Balanced ↔ c.Balanced := by
  induction statuses generalizing c with
  | nil => rfl
  | cons st statuses ih =>
      rw [Counters.countAll, List.foldl_cons, ← Counters.countAll, ih]
      simp only [Counters.Balanced]
      cases st with
      | _ =>
          simp only [Counters.count]
          omega

theorem failed_countAll (c : Counters) (statuses : List TestStatus) :
    (c.countAll statuses).failed = c.failed + statuses.count .failed := by
  induction statuses generalizing c with
  | nil => simp [Counters.countAll]
  | cons st statuses ih =>
      rw [Counters.countAll, List.foldl_cons, ← Counters.countAll, ih, List.count_cons]
      cases st with
      | failed =>
          simp [Counters.count]
          omega
      | _ => simp [Counters.count]

theorem errors_countAll (c : Counters) (statuses : List TestStatus) :
    (c.countAll statuses).errors =
      c.errors + (statuses.count .error + statuses.count .timeout) := by
  induction statuses generalizing c with
  | nil => simp [Counters.countAll]
  | cons st statuses ih =>
      rw [Counters.countAll, List.foldl_cons, ← Counters.countAll, ih]
      cases st <;> simp [Counters.count] <;> omega

def TestRun.addAll (run : TestRun) (cases : List TestCase) : TestRun :=
  { run with
    counters := run.counters.countAll (cases.map TestCase.status)
    cases := run.cases ++ cases }

theorem addAll_nil (run : TestRun) : run.addAll [] = run := by
  rw [TestRun.addAll, List.append_nil]
  rfl

theorem addAll_cons (run : TestRun) (tc : TestCase) (cases : List TestCase) :
    run.addAll (tc :: cases) = (run.add tc).addAll cases := by
  rw [TestRun.addAll, TestRun.addAll, TestRun.add, List.append_assoc]
  rfl

/-! ## Reports -/

theorem getFields_lines {lines : List Bytes} (h : ∀ l ∈ lines, (10 : UInt8) ∉ l) :
    getFields 10 (lines.flatMap (· ++ [10])) = lines := by
  simpa [getFields] using getFields_flatMap_append h []

/-- Where every element gives at most one result, as many results as elements means one
from each. -/
theorem filterMap_eq_map_iff {α β : Type} (f : α → Option β) (g : α → β) (l : List α) :
    l.filterMap f = l.map g ↔ ∀ x ∈ l, f x = some (g x) := by
  induction l with
  | nil => simp
  | cons x l ih =>
      rw [List.forall_mem_cons, ← ih, List.map_cons]
      cases hx : f x with
      | none =>
          rw [List.filterMap_cons_none hx]
          constructor
          · intro h
            have hle := List.length_filterMap_le f l
            rw [h, List.length_cons, List.length_map] at hle
            omega
          · intro h
            cases h.1
      | some y =>
          rw [List.filterMap_cons_some hx, List.cons_eq_cons, Option.some_inj]

/-- A run that tells how the tests went: one case for each of the right status, a total that
is the sum of the counters, and a command that fails if the test process did. -/
def Reported (fresh : Counters) (framework : Framework) (output : Bytes) (exitCode : Int)
    (statuses : List TestStatus) : Prop :=
  ∃ run, Runner.execute fresh framework output exitCode = some run ∧
    run.cases.map TestCase.status = statuses ∧ run.counters.Balanced ∧
    (exitCode ≠ 0 → frameworkExit run ≠ 0)

/-- The counters can be trusted: they add up before the first test, and a process that fails
has a test, or what the counters started from, to show for it. -/
structure Accounted (fresh : Counters) (exitCode : Int) (statuses : List TestStatus) : Prop where
  balanced : fresh.Balanced
  failure : exitCode = 0 ∨ 0 < fresh.failed + statuses.count .failed ∨
    0 < fresh.errors + (statuses.count .error + statuses.count .timeout)

/-- No tests are counted up to a total of zero: there the adapters turn to the summary. -/
def Counters.Moves (fresh : Counters) (n : Nat) : Prop := n = 0 ∨ fresh.total + n ≠ 0

theorem frameworkExit_addAll (fresh : Counters) (exitCode : Int) (cases : List TestCase) :
    (exitCode ≠ 0 → frameworkExit (TestRun.addAll ⟨fresh, [], exitCode⟩ cases) ≠ 0) ↔
      exitCode = 0 ∨ 0 < fresh.failed + (cases.map TestCase.status).count .failed ∨
        0 < fresh.errors + ((cases.map TestCase.status).count .error +
          (cases.map TestCase.status).count .timeout) := by
  rw [frameworkExit, TestRun.addAll, failed_countAll, errors_countAll]
  split
  · rename_i h
    simp [h]
  · rename_i h
    simp only [ne_eq, not_true_eq_false, imp_false, Decidable.not_not]
    constructor
    · exact Or.inl
    · rintro (h0 | h0)
      · exact h0
      · exact absurd h0 h

/-- The run that the lines of a report add up to is the one claimed if each line gives the
case it should. -/
theorem reported_addAll_iff {fresh : Counters} {exitCode : Int} {cases : List TestCase}
    {statuses : List TestStatus} :
    ((cases.map TestCase.status = statuses) ∧
      (TestRun.addAll ⟨fresh, [], exitCode⟩ cases).counters.Balanced ∧
      (exitCode ≠ 0 → frameworkExit (TestRun.addAll ⟨fresh, [], exitCode⟩ cases) ≠ 0)) ↔
    cases.map TestCase.status = statuses ∧ Accounted fresh exitCode statuses := by
  rw [frameworkExit_addAll]
  constructor
  · rintro ⟨rfl, hbalanced, hexit⟩
    exact ⟨rfl, (balanced_countAll fresh _).1 hbalanced, hexit⟩
  · rintro ⟨rfl, hbalanced, hexit⟩
    exact ⟨rfl, (balanced_countAll fresh _).2 hbalanced, hexit⟩

/-- A report is read right if each of its lines is, and the counters account for how the
process ended. -/
theorem reported_iff_lines {α : Type} {results : List α} {status : α → TestStatus}
    {caseFor : α → Option TestCase} {fresh : Counters} {framework : Framework} {output : Bytes}
    {exitCode : Int}
    (hcases : ∀ run, Runner.execute fresh framework output exitCode = some run →
      run.cases = results.filterMap caseFor)
    (hrun : (results.filterMap caseFor).length = results.length →
      Runner.execute fresh framework output exitCode =
        some (TestRun.addAll ⟨fresh, [], exitCode⟩ (results.filterMap caseFor))) :
    Reported fresh framework output exitCode (results.map status) ↔
      (∀ r ∈ results, (caseFor r).map TestCase.status = some (status r)) ∧
      Accounted fresh exitCode (results.map status) := by
  have hmap : (results.filterMap caseFor).map TestCase.status =
      results.filterMap fun r => (caseFor r).map TestCase.status := List.map_filterMap
  rw [← filterMap_eq_map_iff, ← hmap, ← reported_addAll_iff]
  have hlen : (results.filterMap caseFor).map TestCase.status = results.map status →
      (results.filterMap caseFor).length = results.length := by
    intro h
    rw [← List.length_map TestCase.status, h, List.length_map]
  constructor
  · rintro ⟨run, hexec, hstatuses, hrest⟩
    rw [hcases run hexec] at hstatuses
    rw [hrun (hlen hstatuses)] at hexec
    obtain rfl := Option.some.inj hexec
    exact ⟨hstatuses, hrest⟩
  · rintro ⟨hstatuses, hrest⟩
    exact ⟨_, hrun (hlen hstatuses), hstatuses, hrest⟩

/-! ## CTest -/

/-- A line that is read as it is meant: the adapter knows no word for a time-out, and the
outcomes in two words are none. -/
def CTestResult.Readable (r : CTestResult) : Prop :=
  OneWord r.name ∧ (r.outcome = .passed ∨ r.outcome = .failed ∨ r.outcome = .skipped)

namespace GTestAdapter

def caseIn (line : Bytes) : Option TestCase :=
  (search testLine line).map fun ps =>
    { name := ps.getD 6 [], status := statusOf (ps.getD 11 []) }

/-- The time of the case, if there is one, is a number. -/
def TimeFits (line : Bytes) : Prop :=
  ∀ ps, search testLine line = some ps → stodAccepts (ps.getD 13 []) = true

theorem foldlM_readLine {lines : List Bytes} (h : ∀ l ∈ lines, TimeFits l) (run : TestRun) :
    lines.foldlM readLine run = some (run.addAll (lines.filterMap caseIn)) := by
  induction lines generalizing run with
  | nil =>
      rw [List.filterMap_nil, addAll_nil]
      rfl
  | cons l lines ih =>
      obtain ⟨hl, h⟩ := List.forall_mem_cons.1 h
      rw [List.foldlM_cons]
      cases hsearch : search testLine l with
      | none =>
          have hcase : caseIn l = none := by rw [caseIn, hsearch]; rfl
          have hread : readLine run l = some run := by rw [readLine, hsearch]
          rw [List.filterMap_cons_none hcase, hread]
          exact ih h run
      | some ps =>
          have hcase : caseIn l =
              some { name := ps.getD 6 [], status := statusOf (ps.getD 11 []) } := by
            rw [caseIn, hsearch]
            rfl
          have hread : readLine run l =
              some (run.add { name := ps.getD 6 [], status := statusOf (ps.getD 11 []) }) := by
            rw [readLine, hsearch]
            exact if_pos (hl ps hsearch)
          rw [List.filterMap_cons_some hcase, hread, addAll_cons]
          exact ih h _

theorem search_eq_none_of_notMem {line : Bytes} (h : (35 : UInt8) ∉ line) :
    search testLine line = none := by
  rw [Option.eq_none_iff_forall_ne_some]
  intro ps hps
  obtain ⟨a, number, s, rfl, -, -⟩ := reading_of_search hps
  exact h (List.mem_append_right _ List.mem_cons_self)

theorem caseIn_of_notMem {line : Bytes} (h : (35 : UInt8) ∉ line) : caseIn line = none := by
  rw [caseIn, search_eq_none_of_notMem h]
  rfl

/-! ### Lines of tests -/

def wordsPassed : Outcome.passed.Words where
  lead := blanks 3
  stars := []
  word := bytes "Passed"
  text := rfl
  leadSpace := by decide
  starsOr := Or.inl rfl
  wordBytes := by decide

def wordsFailed : Outcome.failed.Words where
  lead := []
  stars := bytes "***"
  word := bytes "Failed"
  text := rfl
  leadSpace := List.forall_mem_nil _
  starsOr := Or.inr rfl
  wordBytes := by decide

def wordsSkipped : Outcome.skipped.Words where
  lead := []
  stars := bytes "***"
  word := bytes "Skipped"
  text := rfl
  leadSpace := List.forall_mem_nil _
  starsOr := Or.inr rfl
  wordBytes := by decide

def wordsTimedOut : Outcome.timedOut.Words where
  lead := []
  stars := bytes "***"
  word := bytes "Timeout"
  text := rfl
  leadSpace := List.forall_mem_nil _
  starsOr := Or.inr rfl
  wordBytes := by decide

theorem words_or (o : Outcome) : (∃ words : o.Words, (statusOf words.word = o.status ↔
    o = .passed ∨ o = .failed ∨ o = .skipped)) ∨ o = .notRun ∨ ∃ e, o = .crashed e := by
  cases o with
  | passed => exact Or.inl ⟨wordsPassed, by simp [wordsPassed, statusOf, Outcome.status]⟩
  | failed => exact Or.inl ⟨wordsFailed, iff_of_true rfl (Or.inr (Or.inl rfl))⟩
  | timedOut => exact Or.inl ⟨wordsTimedOut, iff_of_false (by decide) (by simp)⟩
  | crashed e => exact Or.inr (Or.inr ⟨e, rfl⟩)
  | notRun => exact Or.inr (Or.inl rfl)
  | skipped => exact Or.inl ⟨wordsSkipped, iff_of_true rfl (Or.inr (Or.inr rfl))⟩

theorem caseIn_of_oneWord {r : CTestResult} (count : Nat) (hname : OneWord r.name)
    (words : r.outcome.Words) : TimeFits (r.line count) ∧
      (caseIn (r.line count)).map TestCase.status = some (statusOf words.word) := by
  obtain ⟨ps, hsearch, hword, htime⟩ := search_of_oneWord count hname words
  constructor
  · intro qs hqs
    rw [hsearch] at hqs
    rw [← Option.some.inj hqs, htime]
    exact r.time.stodAccepts_text
  · rw [caseIn, hsearch, ← hword]
    rfl

theorem caseIn_of_readable {r : CTestResult} (count : Nat) (h : r.Readable) :
    TimeFits (r.line count) ∧
      (caseIn (r.line count)).map TestCase.status = some r.outcome.status := by
  obtain ⟨words, hstatus⟩ | hrest := words_or r.outcome
  · have := caseIn_of_oneWord count h.1 words
    rwa [hstatus.2 h.2] at this
  · obtain ⟨-, ho⟩ := h
    obtain hrest | ⟨e, hrest⟩ := hrest
    · rw [hrest] at ho
      simp at ho
    · rw [hrest] at ho
      simp at ho

theorem unread {r : CTestResult} (count : Nat) (h : Innocent r.name) (hread : ¬ r.Readable)
    (ho : ¬ OneWord r.name ∨ r.outcome = .notRun ∨ ∃ e, r.outcome = .crashed e) :
    TimeFits (r.line count) ∧
      ((caseIn (r.line count)).map TestCase.status = some r.outcome.status ↔ r.Readable) := by
  have hnone := search_eq_none count h ho
  constructor
  · intro ps hps
    rw [hnone] at hps
    cases hps
  · rw [caseIn, hnone]
    exact iff_of_false (fun h => by cases h) hread

theorem caseIn_of_innocent {r : CTestResult} (count : Nat) (h : Innocent r.name) :
    TimeFits (r.line count) ∧
      ((caseIn (r.line count)).map TestCase.status = some r.outcome.status ↔ r.Readable) := by
  by_cases hread : r.Readable
  · obtain ⟨htime, hstatus⟩ := caseIn_of_readable count hread
    exact ⟨htime, iff_of_true hstatus hread⟩
  by_cases hname : OneWord r.name
  · obtain ⟨words, hword⟩ | hrest := words_or r.outcome
    · obtain ⟨htime, hstatus⟩ := caseIn_of_oneWord count hname words
      refine ⟨htime, ?_⟩
      rw [hstatus, Option.some_inj, hword]
      exact iff_of_false (fun ho => hread ⟨hname, ho⟩) hread
    · exact unread count h hread (Or.inr hrest)
  · exact unread count h hread (Or.inl hname)

/-! ### Reports of CTest -/

theorem foreign_notMem_summary {x : UInt8} (hx : Foreign x) (results : List CTestResult) :
    x ∉ ctestSummary results := by
  rw [ctestSummary]
  split
  · exact hx.notMem (by decide)
  · simp only [List.mem_append, not_or]
    exact ⟨⟨⟨⟨hx.notMem_digits _, hx.notMem (by decide)⟩, hx.notMem_digits _⟩,
      hx.notMem (by decide)⟩, hx.notMem_digits _⟩

theorem getFields_ctestReport (results : List CTestResult) :
    getFields 10 (ctestReport results) =
      results.map (CTestResult.line · results.length) ++ [[], ctestSummary results] := by
  refine getFields_lines ?_
  intro l hl
  obtain hl | hl := List.mem_append.1 hl
  · obtain ⟨r, -, rfl⟩ := List.mem_map.1 hl
    exact lineBreak_notMem r _
  · obtain rfl | hl := List.mem_cons.1 hl
    · exact List.not_mem_nil
    · rw [List.mem_singleton.1 hl]
      exact foreign_notMem_summary (Or.inl rfl) results

/-- The cases of a report are those in the lines of its tests. -/
theorem foldlM_ctestReport {results : List CTestResult}
    (h : ∀ r ∈ results, TimeFits (r.line results.length)) (run : TestRun) :
    (getFields 10 (ctestReport results)).foldlM readLine run =
      some (run.addAll (results.filterMap fun r => caseIn (r.line results.length))) := by
  have hother : ∀ l : Bytes, (35 : UInt8) ∉ l → TimeFits l := by
    intro l hl ps hps
    rw [search_eq_none_of_notMem hl] at hps
    cases hps
  have hsummary := foreign_notMem_summary (Or.inr rfl) results
  have hnil : (35 : UInt8) ∉ ([] : Bytes) := List.not_mem_nil
  rw [getFields_ctestReport, foldlM_readLine, List.filterMap_append, List.filterMap_map,
    List.filterMap_cons_none (caseIn_of_notMem hnil),
    List.filterMap_cons_none (caseIn_of_notMem hsummary), List.filterMap_nil, List.append_nil]
  · rfl
  · intro l hl
    obtain hl | hl := List.mem_append.1 hl
    · obtain ⟨r, hr, rfl⟩ := List.mem_map.1 hl
      exact h r hr
    · obtain rfl | hl := List.mem_cons.1 hl
      · exact hother _ hnil
      · rw [List.mem_singleton.1 hl]
        exact hother _ hsummary

theorem cases_readSummary {out : Bytes} {run run' : TestRun}
    (h : readSummary out run = some run') : run'.cases = run.cases := by
  rw [readSummary] at h
  split at h
  · rw [← Option.some.inj h]
  · obtain ⟨failed, -, h⟩ := Option.bind_eq_some_iff.1 h
    obtain ⟨total, -, h⟩ := Option.bind_eq_some_iff.1 h
    rw [← Option.some.inj h]

theorem readSummary_nil (run : TestRun) : readSummary (ctestReport []) run = some run := by
  have hnone : search summary (ctestReport []) = none := by decide +kernel
  rw [readSummary, hnone]

section
variable {results : List CTestResult} (h : ∀ r ∈ results, TimeFits (r.line results.length))
include h

theorem cases_of_parseOutput {fresh : Counters} {err : Bytes} {exitCode : Int} {run : TestRun}
    (hrun : parseOutput fresh (ctestReport results) err exitCode = some run) :
    run.cases = results.filterMap fun r => caseIn (r.line results.length) := by
  rw [parseOutput, foldlM_ctestReport h, Option.bind_eq_bind, Option.bind_some] at hrun
  split at hrun
  · rw [cases_readSummary hrun]
    rfl
  · rw [← Option.some.inj hrun]
    rfl

theorem parseOutput_eq_addAll {fresh : Counters} {err : Bytes} {exitCode : Int}
    (hmoves : fresh.Moves results.length)
    (hlen : (results.filterMap fun r => caseIn (r.line results.length)).length =
      results.length) :
    parseOutput fresh (ctestReport results) err exitCode =
      some (TestRun.addAll ⟨fresh, [], exitCode⟩
        (results.filterMap fun r => caseIn (r.line results.length))) := by
  rw [parseOutput, foldlM_ctestReport h, Option.bind_eq_bind, Option.bind_some]
  split
  · rename_i htotal
    rw [TestRun.addAll, total_countAll, List.length_map, hlen] at htotal
    obtain hnil | hne := hmoves
    · rw [List.length_eq_zero_iff] at hnil
      subst hnil
      rw [readSummary_nil]
    · exact absurd htotal hne
  · rfl

theorem reported_iff {fresh : Counters} {framework : Framework} {exitCode : Int}
    (hframework : framework = .gtest ∨ framework = .ctest)
    (hmoves : fresh.Moves results.length) :
    Reported fresh framework (ctestReport results) exitCode
      (results.map fun r => r.outcome.status) ↔
      (∀ r ∈ results, (caseIn (r.line results.length)).map TestCase.status =
        some r.outcome.status) ∧
      Accounted fresh exitCode (results.map fun r => r.outcome.status) := by
  have hparse : Runner.execute fresh framework (ctestReport results) exitCode =
      parseOutput fresh (ctestReport results) [] exitCode := by
    obtain rfl | rfl := hframework <;> rfl
  refine reported_iff_lines ?_ ?_
  · intro run hrun
    rw [hparse] at hrun
    exact cases_of_parseOutput h hrun
  · intro hlen
    rw [hparse]
    exact parseOutput_eq_addAll h hmoves hlen

end

end GTestAdapter

/-! ## pytest -/

/-- A test whose status the name does not hide. -/
def PytestResult.Plain (r : PytestResult) : Prop :=
  ∀ status, (behindFile r.nodeId).bind firstStatus = some status → status = r.outcome.status

namespace PytestAdapter

def caseIn (line : Bytes) : Option TestCase :=
  (matchAt testLine line).map fun ps =>
    caseOf (ps.getD 0 [] ++ ps.getD 1 []) (ps.getD 3 []) (statusOf (ps.getD 5 []))

theorem foldl_readLine (lines : List Bytes) (run : TestRun) :
    lines.foldl readLine run = run.addAll (lines.filterMap caseIn) := by
  induction lines generalizing run with
  | nil => rw [List.filterMap_nil, addAll_nil, List.foldl_nil]
  | cons l lines ih =>
      rw [List.foldl_cons, ih, readLine]
      cases hmatch : matchAt testLine l with
      | none =>
          have hcase : caseIn l = none := by rw [caseIn, hmatch]; rfl
          rw [List.filterMap_cons_none hcase]
      | some ps =>
          have hcase : caseIn l = some (caseOf (ps.getD 0 [] ++ ps.getD 1 []) (ps.getD 3 [])
              (statusOf (ps.getD 5 []))) := by
            rw [caseIn, hmatch]
            rfl
          rw [List.filterMap_cons_some hcase, addAll_cons]

theorem status_caseOf (file name : Bytes) (status : TestStatus) :
    (caseOf file name status).status = status := by
  rw [caseOf]
  split <;> rfl

theorem caseIn_line (r : PytestResult) :
    (caseIn r.line).map TestCase.status = some r.outcome.status ↔ r.Plain := by
  have hstatus : (caseIn r.line).map TestCase.status =
      some (((behindFile r.nodeId).bind firstStatus).getD r.outcome.status) := by
    rw [← status_line, caseIn, Option.map_map]
    congr 1
    funext ps
    exact status_caseOf _ _ _
  rw [hstatus, Option.some_inj, PytestResult.Plain]
  cases (behindFile r.nodeId).bind firstStatus with
  | none => simp
  | some status => simp

theorem caseIn_of_notMem {line : Bytes} (h : (58 : UInt8) ∉ line) : caseIn line = none := by
  cases hmatch : matchAt testLine line with
  | none =>
      rw [caseIn, hmatch]
      rfl
  | some ps =>
      obtain ⟨t, rfl, hall⟩ := matchAt_spec hmatch
      rw [testLine] at hall
      obtain _ | ⟨-, _ | ⟨-, _ | ⟨hcolons, _⟩⟩⟩ := hall
      rw [matches_partText (by decide) hcolons] at h
      have hmem : (58 : UInt8) ∈ bytes "::" := by decide
      exact absurd (List.mem_append_left _ (List.mem_flatten.2 ⟨_, by simp, hmem⟩)) h

/-! ### Reports of pytest -/

theorem mem_summaryPart {x : UInt8} {n : Nat} {word part : Bytes} (h : part ∈ summaryPart n word)
    (hx : x ∈ part) : x ∈ natDecimal n ∨ x = 32 ∨ x ∈ word := by
  rw [summaryPart] at h
  split at h
  · cases h
  · rw [List.mem_singleton.1 h, List.mem_append, List.mem_cons] at hx
    exact hx

/-- The summary has no line break and no colon. -/
theorem notMem_summary {x : UInt8} (hx : x = 10 ∨ x = 58) (bar : Nat) (time : Seconds)
    (results : List PytestResult) : x ∉ pytestSummary bar time results := by
  have hdigits : ∀ n, x ∉ natDecimal n := by
    intro n h
    have hdigit := isDigit_of_mem_natDecimal h
    obtain rfl | rfl := hx <;> cases hdigit
  have hother : ∀ u : Bytes, (10 : UInt8) ∉ u → (58 : UInt8) ∉ u → x ∉ u := by
    intro u h10 h58
    obtain rfl | rfl := hx
    · exact h10
    · exact h58
  have hpart : ∀ n word part, x ∉ word → part ∈ summaryPart n word → x ∉ part := by
    intro n word part hword hmem h
    obtain h | h | h := mem_summaryPart hmem h
    · exact hdigits n h
    · exact hother [32] (by decide) (by decide) (List.mem_singleton.2 h)
    · exact hword h
  have hbar : x ∉ List.replicate bar 61 := by
    intro h
    exact hother [61] (by decide) (by decide) (List.mem_singleton.2 (List.eq_of_mem_replicate h))
  have htime : x ∉ time.text := by
    intro h
    have hnumeric := time.isNumeric_text x h
    obtain rfl | rfl := hx <;> cases hnumeric
  have hparts : ∀ part ∈ summaryParts results, x ∉ part := by
    intro part hmem
    rw [summaryParts, List.mem_append, List.mem_append, List.mem_append] at hmem
    obtain ((hmem | hmem) | hmem) | hmem := hmem
    · exact hpart _ _ _ (hother _ (by decide) (by decide)) hmem
    · exact hpart _ _ _ (hother _ (by decide) (by decide)) hmem
    · exact hpart _ _ _ (hother _ (by decide) (by decide)) hmem
    · refine hpart _ _ _ ?_ hmem
      split
      · exact hother _ (by decide) (by decide)
      · exact hother _ (by decide) (by decide)
  have hcounts : x ∉ summaryCounts (summaryParts results) := by
    rw [summaryCounts]
    split
    · exact hother _ (by decide) (by decide)
    · intro h
      obtain h | ⟨part, hmem, h⟩ := mem_intercalate h
      · exact hother (bytes ", ") (by decide) (by decide) h
      · exact hparts part hmem h
  rw [pytestSummary]
  simp only [List.mem_append, List.mem_cons, not_or]
  refine ⟨hbar, ?_, hcounts, ?_, htime, ?_, hbar⟩
  · intro h
    exact hother [32] (by decide) (by decide) (List.mem_singleton.2 h)
  · exact hother _ (by decide) (by decide)
  · exact hother _ (by decide) (by decide)

theorem lineBreak_notMem (r : PytestResult) : (10 : UInt8) ∉ r.line := by
  have hword : (10 : UInt8) ∉ r.outcome.word := by
    cases r.outcome with
    | _ => decide
  rw [PytestResult.line, List.mem_append, List.mem_cons, List.mem_append]
  rintro (h | h | h | h)
  · exact r.oneLine.1 h
  · cases h
  · exact hword h
  · exact r.oneLine.2.2 h

theorem getFields_pytestReport (bar : Nat) (time : Seconds) (results : List PytestResult) :
    getFields 10 (pytestReport bar time results) =
      results.map PytestResult.line ++ [[], pytestSummary bar time results] := by
  refine getFields_lines ?_
  intro l hl
  obtain hl | hl := List.mem_append.1 hl
  · obtain ⟨r, -, rfl⟩ := List.mem_map.1 hl
    exact lineBreak_notMem r
  · obtain rfl | hl := List.mem_cons.1 hl
    · exact List.not_mem_nil
    · rw [List.mem_singleton.1 hl]
      exact notMem_summary (Or.inl rfl) bar time results

theorem foldl_pytestReport (bar : Nat) (time : Seconds) (results : List PytestResult)
    (run : TestRun) : (getFields 10 (pytestReport bar time results)).foldl readLine run =
      run.addAll (results.filterMap fun r => caseIn r.line) := by
  have hnil : (58 : UInt8) ∉ ([] : Bytes) := List.not_mem_nil
  rw [getFields_pytestReport, foldl_readLine, List.filterMap_append, List.filterMap_map,
    List.filterMap_cons_none (caseIn_of_notMem hnil),
    List.filterMap_cons_none (caseIn_of_notMem (notMem_summary (Or.inr rfl) bar time results)),
    List.filterMap_nil, List.append_nil]
  rfl

theorem cases_readSummary {out : Bytes} {run run' : TestRun}
    (h : readSummary out run = some run') : run'.cases = run.cases := by
  rw [readSummary] at h
  split at h
  · rw [← Option.some.inj h]
  · split at h
    · obtain ⟨passed, -, h⟩ := Option.bind_eq_some_iff.1 h
      obtain ⟨failed, -, h⟩ := Option.bind_eq_some_iff.1 h
      obtain ⟨skipped, -, h⟩ := Option.bind_eq_some_iff.1 h
      rw [← Option.some.inj h]
    · rw [← Option.some.inj h]

theorem readSummary_of_ne_zero {out : Bytes} {run : TestRun} (h : run.counters.total ≠ 0) :
    readSummary out run = some run := by
  rw [readSummary]
  split
  · rfl
  · rw [if_neg h]

theorem notMem_emptyReport (bar : Nat) (time : Seconds) :
    (112 : UInt8) ∉ pytestReport bar time [] ++ [] := by
  have hcounts : summaryCounts (summaryParts []) = bytes "no tests ran" := rfl
  have hbar : (112 : UInt8) ∉ List.replicate bar 61 := fun h =>
    absurd (List.eq_of_mem_replicate h) (by decide)
  have htime : (112 : UInt8) ∉ time.text := fun h =>
    absurd (time.isNumeric_text _ h) (by decide)
  have hnone : (112 : UInt8) ∉ bytes "no tests ran" := by decide
  have hin : (112 : UInt8) ∉ bytes " in " := by decide
  have hs : (112 : UInt8) ∉ bytes "s " := by decide
  rw [pytestReport, pytestSummary, hcounts]
  simp only [List.map_nil, List.nil_append, List.flatMap_cons, List.flatMap_nil, List.append_nil,
    List.mem_append, List.mem_cons, hbar, htime, hnone, hin, hs, List.not_mem_nil, or_false,
    false_or]
  decide

/-- Where no test ran the summary has nothing to count. -/
theorem readSummary_nil (bar : Nat) (time : Seconds) (run : TestRun) :
    readSummary (pytestReport bar time [] ++ []) run = some run := by
  have hnone : search summary (pytestReport bar time [] ++ []) = none := by
    rw [Option.eq_none_iff_forall_ne_some]
    intro ps hps
    obtain ⟨b, t, htext, hall⟩ := search_spec hps
    rw [summary] at hall
    obtain _ | ⟨-, _ | ⟨-, _ | ⟨-, _ | ⟨-, _ | ⟨hpassed, _⟩⟩⟩⟩⟩ := hall
    rw [matches_partText (by decide) hpassed] at htext
    have hmem : (112 : UInt8) ∈ bytes "passed" := by decide
    refine notMem_emptyReport bar time ?_
    rw [htext]
    exact List.mem_append_right _
      (List.mem_append_left _ (List.mem_flatten.2 ⟨_, by simp, hmem⟩))
  rw [readSummary, hnone]

theorem reported_iff {fresh : Counters} {framework : Framework} {exitCode : Int}
    (hframework : framework = .pytest ∨ framework = .unittest) (bar : Nat) (time : Seconds)
    {results : List PytestResult} (hmoves : fresh.Moves results.length) :
    Reported fresh framework (pytestReport bar time results) exitCode
      (results.map fun r => r.outcome.status) ↔
      (∀ r ∈ results, r.Plain) ∧
      Accounted fresh exitCode (results.map fun r => r.outcome.status) := by
  have hparse : Runner.execute fresh framework (pytestReport bar time results) exitCode =
      readSummary (pytestReport bar time results ++ [])
        (TestRun.addAll ⟨fresh, [], exitCode⟩ (results.filterMap fun r => caseIn r.line)) := by
    rw [← foldl_pytestReport]
    obtain rfl | rfl := hframework <;> rfl
  simp only [← caseIn_line]
  refine reported_iff_lines ?_ ?_
  · intro run hrun
    rw [hparse] at hrun
    exact cases_readSummary hrun
  · intro hlen
    rw [hparse]
    obtain hnil | hne := hmoves
    · rw [List.length_eq_zero_iff] at hnil
      subst hnil
      exact readSummary_nil bar time _
    · refine readSummary_of_ne_zero ?_
      rw [TestRun.addAll, total_countAll, List.length_map, hlen]
      exact hne

end PytestAdapter

/-! ## Both -/

/-- When a report tells how the tests went. For CTest the converse is about names in which no
line of CTest can end. -/
theorem reported_of_and_iff (fresh : Counters) (exitCode : Int) :
    (∀ framework, framework = .gtest ∨ framework = .ctest → ∀ results : List CTestResult,
      fresh.Moves results.length → (∀ r ∈ results, r.Readable) →
      Accounted fresh exitCode (results.map fun r => r.outcome.status) →
      Reported fresh framework (ctestReport results) exitCode
        (results.map fun r => r.outcome.status)) ∧
    (∀ framework, framework = .gtest ∨ framework = .ctest → ∀ results : List CTestResult,
      fresh.Moves results.length → (∀ r ∈ results, GTestAdapter.Innocent r.name) →
      (Reported fresh framework (ctestReport results) exitCode
        (results.map fun r => r.outcome.status) ↔
        (∀ r ∈ results, r.Readable) ∧
        Accounted fresh exitCode (results.map fun r => r.outcome.status))) ∧
    ∀ framework, framework = .pytest ∨ framework = .unittest → ∀ bar time,
      ∀ results : List PytestResult, fresh.Moves results.length →
      (Reported fresh framework (pytestReport bar time results) exitCode
        (results.map fun r => r.outcome.status) ↔
        (∀ r ∈ results, r.Plain) ∧
        Accounted fresh exitCode (results.map fun r => r.outcome.status)) := by
  refine ⟨?_, ?_, ?_⟩
  · intro framework hframework results hmoves hread haccounted
    have hlines := fun r hr => GTestAdapter.caseIn_of_readable results.length (hread r hr)
    exact (GTestAdapter.reported_iff (fun r hr => (hlines r hr).1) hframework hmoves).2
      ⟨fun r hr => (hlines r hr).2, haccounted⟩
  · intro framework hframework results hmoves hnames
    have hlines := fun r hr => GTestAdapter.caseIn_of_innocent results.length (hnames r hr)
    rw [GTestAdapter.reported_iff (fun r hr => (hlines r hr).1) hframework hmoves]
    exact and_congr_left fun _ => forall₂_congr fun r hr => (hlines r hr).2
  · intro framework hframework bar time results hmoves
    exact PytestAdapter.reported_iff hframework bar time hmoves

def hundredth : Seconds where
  whole := bytes "0"
  fraction := bytes "01"
  wholeDigits := by decide
  fractionDigits := by decide
  finite := by decide +kernel

/-- The lines of two tests `a` and `b` as CTest prints them. -/
def resultFor (name : UInt8) (hname : name ≠ 10) (number : Nat) (outcome : Outcome)
    (printed : outcome.Printed) : CTestResult where
  name := [name]
  outcome := outcome
  number := number
  time := hundredth
  place := number
  indent := 0
  gap := 0
  dots := 29
  pad := 3
  oneLine := fun h => hname (List.mem_singleton.1 h).symm
  printed := printed

theorem reported_of_and_iff_failed :
    Reported ⟨0, 0, 0, 0, 0⟩ .gtest (ctestReport [resultFor 97 (by decide) 1 .failed trivial]) 8
      [.failed] := by
  refine (reported_of_and_iff ⟨0, 0, 0, 0, 0⟩ 8).1 .gtest (Or.inl rfl) [_] (Or.inr (by decide))
    ?_ ⟨rfl, Or.inr (Or.inl (by decide))⟩
  intro r hr
  rw [List.mem_singleton.1 hr]
  exact ⟨⟨[], [97], [], rfl, by decide, by decide, by decide, by decide⟩, Or.inr (Or.inl rfl)⟩

def passedAndCrashed : List CTestResult :=
  [resultFor 97 (by decide) 1 .passed trivial,
    resultFor 98 (by decide) 2 (.crashed (bytes "SegFault")) fun c hc => by
      revert c
      decide]

/-- A test that ends with an exception is left out, and the command succeeds. -/
theorem crashed_not_reported :
    (Runner.execute ⟨0, 0, 0, 0, 0⟩ .gtest (ctestReport passedAndCrashed) 8).map frameworkExit =
      some 0 ∧
    ¬ Reported ⟨0, 0, 0, 0, 0⟩ .gtest (ctestReport passedAndCrashed) 8
      (passedAndCrashed.map fun r => r.outcome.status) := by
  constructor
  · decide +kernel
  · rintro ⟨run, hrun, hcases, -⟩
    have hone : (Runner.execute ⟨0, 0, 0, 0, 0⟩ .gtest (ctestReport passedAndCrashed) 8).map
        (fun run => run.cases.length) = some 1 := by
      decide +kernel
    rw [hrun, Option.map_some, ← List.length_map TestCase.status, hcases, Option.some_inj] at hone
    cases hone

end Nazg.Testsuite

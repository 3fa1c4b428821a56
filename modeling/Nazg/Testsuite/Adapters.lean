import Nazg.Lib.Regex
import Nazg.Lib.Words
import Nazg.Testsuite.Runner

/-!
# Reading test reports

An adapter takes what a test framework has printed apart line by line, with one regular
expression for the lines that report a test, and falls back on the summary where it has
found no such line. The counters of the run are those of a `TestRun` that nothing has
initialised: what they start from is `fresh`.

How long a test took is left out of its case, but a time that `std::stod` throws at is not:
`none` stands for the exception.
-/

namespace Nazg.Testsuite

open Lib

inductive TestStatus where
  | passed
  | failed
  | skipped
  /-- Crashed or could not run. -/
  | error
  | timeout
  deriving DecidableEq

structure TestCase where
  file : Bytes := []
  suite : Bytes := []
  name : Bytes
  status : TestStatus

structure Counters where
  total : Int
  passed : Int
  failed : Int
  skipped : Int
  errors : Int

structure TestRun where
  counters : Counters
  cases : List TestCase
  exitCode : Int

/-- A case is counted under its status. -/
def Counters.count (c : Counters) (status : TestStatus) : Counters :=
  match status with
  | .passed => { c with total := c.total + 1, passed := c.passed + 1 }
  | .failed => { c with total := c.total + 1, failed := c.failed + 1 }
  | .skipped => { c with total := c.total + 1, skipped := c.skipped + 1 }
  | .error | .timeout => { c with total := c.total + 1, errors := c.errors + 1 }

def TestRun.add (run : TestRun) (tc : TestCase) : TestRun :=
  { run with counters := run.counters.count tc.status, cases := run.cases ++ [tc] }

/-! ## Expressions -/

/-- `\w` -/
def isWordByte (c : UInt8) : Bool :=
  isDigit c || (65 ≤ c && c ≤ 90) || (97 ≤ c && c ≤ 122) || c = 95

def isNotSpace (c : UInt8) : Bool := !isSpace c

/-- `.` -/
def isAny (c : UInt8) : Bool := c ≠ 10 && c ≠ 13

def isDot (c : UInt8) : Bool := c = 46

/-- `[\d.]` -/
def isNumeric (c : UInt8) : Bool := isDigit c || isDot c

def Part.many (p : UInt8 → Bool) : Part := .regex (.many p)

/-- `*` of a class. -/
def Part.star (p : UInt8 → Bool) : Part := .regex (.opt (.many p))

/-- The bytes of a literal that is not empty. -/
def Part.text (s : Bytes) : Part := .regex (.text (s.headD 0) s.tail)

/-- Whether `std::stod` finds a number, and one within the range of `double`. -/
def stodAccepts (s : Bytes) : Bool :=
  let whole := s.takeWhile isDigit
  let fraction := match s.dropWhile isDigit with
    | [] => []
    | c :: rest => if isDot c then rest.takeWhile isDigit else []
  let n := digitsValue (whole ++ fraction)
  (whole ++ fraction) ≠ [] && n < (2 ^ 1024 - 2 ^ 970) * 10 ^ fraction.length &&
    (n = 0 || 10 ^ fraction.length ≤ n * 2 ^ 1022)

/-! ## CTest -/

namespace GTestAdapter

/-- `Test\s+#(\d+):\s+(\S+)\s+\.+\s*(\*\*\*)?(\w+)\s+([\d.]+)\s+sec` -/
def testLine : List Part :=
  [Part.text (bytes "Test"), Part.many isSpace, Part.text (bytes "#"), Part.many isDigit,
    Part.text (bytes ":"), Part.many isSpace, Part.many isNotSpace, Part.many isSpace,
    Part.many isDot, Part.star isSpace, .regex (.opt (.text 42 (bytes "**"))),
    Part.many isWordByte, Part.many isSpace, Part.many isNumeric, Part.many isSpace,
    Part.text (bytes "sec")]

/-- `(\d+)%\s+tests\s+passed,\s+(\d+)\s+tests\s+failed\s+out\s+of\s+(\d+)` -/
def summary : List Part :=
  [Part.many isDigit, Part.text (bytes "%"), Part.many isSpace, Part.text (bytes "tests"),
    Part.many isSpace, Part.text (bytes "passed,"), Part.many isSpace, Part.many isDigit,
    Part.many isSpace, Part.text (bytes "tests"), Part.many isSpace, Part.text (bytes "failed"),
    Part.many isSpace, Part.text (bytes "out"), Part.many isSpace, Part.text (bytes "of"),
    Part.many isSpace, Part.many isDigit]

def statusOf (word : Bytes) : TestStatus :=
  if word = bytes "Passed" then .passed
  else if word = bytes "Failed" then .failed
  else if word = bytes "Skipped" then .skipped
  else .error

def readLine (run : TestRun) (line : Bytes) : Option TestRun :=
  match Capture.search testLine line with
  | none => some run
  | some ps =>
      if stodAccepts (ps.getD 13 []) then
        some (run.add { name := ps.getD 6 [], status := statusOf (ps.getD 11 []) })
      else none

/-- What is done if no test has been counted. -/
def readSummary (out : Bytes) (run : TestRun) : Option TestRun :=
  match Capture.search summary out with
  | none => some run
  | some ps => do
      let failed ← stoi (ps.getD 7 [])
      let total ← stoi (ps.getD 17 [])
      return { run with
        counters := { run.counters with total, failed, passed := total - failed } }

/-- `parse_output`. -/
def parseOutput (fresh : Counters) (out _err : Bytes) (exitCode : Int) : Option TestRun := do
  let run ← (getFields 10 out).foldlM readLine { counters := fresh, cases := [], exitCode }
  if run.counters.total = 0 then readSummary out run else some run

end GTestAdapter

/-! ## pytest -/

namespace PytestAdapter

/-- `PASSED|FAILED|SKIPPED|ERROR` -/
def statusWord : Regex :=
  .alt (.text 80 (bytes "ASSED"))
    (.alt (.text 70 (bytes "AILED")) (.alt (.text 83 (bytes "KIPPED")) (.text 69 (bytes "RROR"))))

/-- `^(.+?)::(.*?)\s+(PASSED|FAILED|SKIPPED|ERROR)`; the file is the first two parts. -/
def testLine : List Part :=
  [.regex (.one isAny), .lazy isAny, Part.text (bytes "::"), .lazy isAny, Part.many isSpace,
    .regex statusWord]

/-- `,\s+(\d+)\s+` and a word, if they are there. -/
def countOf (word : Bytes) : Part :=
  .regex (.opt (.sequence (.char 44)
    [.many isSpace, .many isDigit, .many isSpace, .text (word.headD 0) word.tail]))

/-- `=+\s*(\d+)\s+passed(?:,\s+(\d+)\s+failed)?(?:,\s+(\d+)\s+skipped)?.*?in\s+([\d.]+)s` -/
def summary : List Part :=
  [Part.many fun c => c = 61, Part.star isSpace, Part.many isDigit, Part.many isSpace,
    Part.text (bytes "passed"), countOf (bytes "failed"), countOf (bytes "skipped"),
    .lazy isAny, Part.text (bytes "in"), Part.many isSpace, Part.many isNumeric,
    Part.text (bytes "s")]

def statusOf (word : Bytes) : TestStatus :=
  if word = bytes "PASSED" then .passed
  else if word = bytes "FAILED" then .failed
  else if word = bytes "SKIPPED" then .skipped
  else .error

/-- A name with a suite in front of it is split. -/
def caseOf (file name : Bytes) (status : TestStatus) : TestCase :=
  match find (bytes "::") name with
  | none => { file, name, status }
  | some pos => { file, suite := name.take pos, name := name.drop (pos + 2), status }

def readLine (run : TestRun) (line : Bytes) : TestRun :=
  match Capture.matchAt testLine line with
  | none => run
  | some ps =>
      run.add (caseOf (ps.getD 0 [] ++ ps.getD 1 []) (ps.getD 3 []) (statusOf (ps.getD 5 [])))

/-- The number in a count that is there. -/
def countIn (piece : Bytes) (otherwise : Int) : Option Int :=
  if piece = [] then some otherwise else stoi (piece.filter isDigit)

def readSummary (combined : Bytes) (run : TestRun) : Option TestRun :=
  match Capture.search summary combined with
  | none => some run
  | some ps =>
      if run.counters.total = 0 then do
        let passed ← stoi (ps.getD 2 [])
        let failed ← countIn (ps.getD 5 []) run.counters.failed
        let skipped ← countIn (ps.getD 6 []) run.counters.skipped
        return { run with counters :=
          { run.counters with
            total := passed + failed + skipped + run.counters.errors, passed, failed, skipped } }
      else some run

/-- `parse_output`. -/
def parseOutput (fresh : Counters) (out err : Bytes) (exitCode : Int) : Option TestRun :=
  readSummary (out ++ err)
    ((getFields 10 out).foldl readLine { counters := fresh, cases := [], exitCode })

end PytestAdapter

/-! ## Running the tests -/

/-- The `parse_output` of the adapter that `create_adapter` chooses. -/
def outputParser : Framework → Option (Counters → Bytes → Bytes → Int → Option TestRun)
  | .gtest | .ctest => some GTestAdapter.parseOutput
  | .pytest | .unittest => some PytestAdapter.parseOutput
  | .cargo | .jest | .vitest | .goTest | .catch2 | .unknown => none

/-- `execute`, for a command that has printed `output` and come back with `exitCode`. -/
def Runner.execute (fresh : Counters) (framework : Framework) (output : Bytes) (exitCode : Int) :
    Option TestRun :=
  match outputParser framework with
  | none =>
      some { counters := { fresh with errors := 1, total := 0 }, cases := [], exitCode := -1 }
  | some parse => parse fresh output [] exitCode

/-- What `nazg test framework` returns after a run. -/
def frameworkExit (run : TestRun) : Int :=
  if 0 < run.counters.failed ∨ 0 < run.counters.errors then 1 else 0

/-!
## Test reports

What CTest and a verbose pytest print for a sequence of results: a line for each, and the
summary. How a test ended gives the status that is right for it.
-/

def blanks (n : Nat) : Bytes := List.replicate n 32

/-! ## CTest -/

inductive Outcome where
  | passed
  | failed
  | timedOut
  | crashed (exception : Bytes)
  | notRun
  | skipped

/-- CTest names an exception in plain words. -/
def Outcome.Printed : Outcome → Prop
  | crashed exception =>
      ∀ c ∈ exception, c = 32 ∨ 65 ≤ c ∧ c ≤ 90 ∨ 97 ≤ c ∧ c ≤ 122
  | passed | failed | timedOut | notRun | skipped => True

/-- What stands behind the dots. -/
def Outcome.text : Outcome → Bytes
  | passed => bytes "   Passed"
  | failed => bytes "***Failed"
  | timedOut => bytes "***Timeout"
  | crashed exception => bytes "***Exception: " ++ exception
  | notRun => bytes "***Not Run"
  | skipped => bytes "***Skipped"

def Outcome.status : Outcome → TestStatus
  | passed => .passed
  | failed => .failed
  | timedOut => .timeout
  | crashed _ | notRun => .error
  | skipped => .skipped

/-- A number of seconds with two decimals, as `%.2f` prints a finite one. -/
structure Seconds where
  whole : Bytes
  fraction : Bytes
  wholeDigits : whole ≠ [] ∧ ∀ c ∈ whole, isDigit c = true
  fractionDigits : fraction.length = 2 ∧ ∀ c ∈ fraction, isDigit c = true
  finite : digitsValue (whole ++ fraction) < (2 ^ 1024 - 2 ^ 970) * 10 ^ 2

def Seconds.text (t : Seconds) : Bytes := t.whole ++ 46 :: t.fraction

/-- A test, and how its line is laid out: columns are aligned with blanks and dots. -/
structure CTestResult where
  name : Bytes
  outcome : Outcome
  number : Nat
  time : Seconds
  place : Nat
  indent : Nat
  gap : Nat
  dots : Nat
  pad : Nat
  oneLine : (10 : UInt8) ∉ name
  printed : outcome.Printed

namespace CTestResult

variable (r : CTestResult)

/-- Where the test stands among the others. -/
def progress (count : Nat) : Bytes :=
  blanks r.indent ++ natDecimal r.place ++ 47 :: natDecimal count ++ [32]

/-- The name and what follows it up to the end of the line. -/
def fromName : Bytes :=
  r.name ++ 32 :: (List.replicate (r.dots + 1) 46 ++
    (r.outcome.text ++ (blanks (r.pad + 1) ++ (r.time.text ++ bytes " sec"))))

def line (count : Nat) : Bytes :=
  r.progress count ++ (bytes "Test" ++ (blanks (r.gap + 1) ++
    (bytes "#" ++ (natDecimal r.number ++ (bytes ":" ++ 32 :: r.fromName)))))

end CTestResult

/-- Whether CTest counts the test as failed. -/
def Outcome.isFailure : Outcome → Bool
  | passed | skipped => false
  | failed | timedOut | crashed _ | notRun => true

def ctestSummary (results : List CTestResult) : Bytes :=
  if results = [] then bytes "No tests were found!!!"
  else
    let failed := (results.filter fun r => r.outcome.isFailure).length
    natDecimal ((results.length - failed) * 100 / results.length) ++ bytes "% tests passed, " ++
      natDecimal failed ++ bytes " tests failed out of " ++ natDecimal results.length

def ctestReport (results : List CTestResult) : Bytes :=
  (results.map (CTestResult.line · results.length) ++ [[], ctestSummary results]).flatMap
    (· ++ [10])

/-! ## pytest -/

inductive PytestOutcome where
  | passed
  | failed
  | skipped
  | error

def PytestOutcome.word : PytestOutcome → Bytes
  | passed => bytes "PASSED"
  | failed => bytes "FAILED"
  | skipped => bytes "SKIPPED"
  | error => bytes "ERROR"

def PytestOutcome.status : PytestOutcome → TestStatus
  | passed => .passed
  | failed => .failed
  | skipped => .skipped
  | error => .error

/-- What stands behind the first two colons that have something in front of them. -/
def behindFile : Bytes → Option Bytes
  | [] => none
  | _ :: s => (find (bytes "::") s).map fun n => s.drop (n + 2)

/-- A test by its node id, a file and the names in it. What comes behind the word is a reason
and the progress. -/
structure PytestResult where
  nodeId : Bytes
  outcome : PytestOutcome
  after : Bytes
  hasFile : (behindFile nodeId).isSome = true
  oneLine : (10 : UInt8) ∉ nodeId ∧ (13 : UInt8) ∉ nodeId ∧ (10 : UInt8) ∉ after

def PytestResult.line (r : PytestResult) : Bytes :=
  r.nodeId ++ 32 :: (r.outcome.word ++ r.after)

/-- A number and a word, unless the number is zero. -/
def summaryPart (n : Nat) (word : Bytes) : List Bytes :=
  if n = 0 then [] else [natDecimal n ++ 32 :: word]

def summaryParts (results : List PytestResult) : List Bytes :=
  let count := fun status => (results.filter fun r => r.outcome.status = status).length
  summaryPart (count .failed) (bytes "failed") ++ summaryPart (count .passed) (bytes "passed") ++
    summaryPart (count .skipped) (bytes "skipped") ++
    summaryPart (count .error) (if count .error = 1 then bytes "error" else bytes "errors")

def summaryCounts (parts : List Bytes) : Bytes :=
  if parts = [] then bytes "no tests ran" else (bytes ", ").intercalate parts

def pytestSummary (bar : Nat) (time : Seconds) (results : List PytestResult) : Bytes :=
  List.replicate bar 61 ++ 32 :: (summaryCounts (summaryParts results) ++ (bytes " in " ++
    (time.text ++ (bytes "s " ++ List.replicate bar 61))))

def pytestReport (bar : Nat) (time : Seconds) (results : List PytestResult) : Bytes :=
  (results.map PytestResult.line ++ [[], pytestSummary bar time results]).flatMap (· ++ [10])

end Nazg.Testsuite

import Nazg.Brain.PatternMatcher
import Nazg.Lib.Regex
import Nazg.Lib.RollingHash
import Nazg.Lib.Words

/-!
# Error signatures

Failures are told apart by a checksum of their error message. Of the message it takes the
lines that look like errors, and of these it rewrites what differs from one run to the
next: paths, line numbers, addresses, times, white space and case. The rewrites run one
after the other, each on what the one before has left.
-/

namespace Nazg.Brain

open Lib

/-! ## The lines that matter -/

def errorKeywords : List Bytes :=
  [bytes "error:", bytes "fatal:", bytes "undefined reference", bytes "cannot find",
    bytes "no such file"]

def isErrorLine (line : Bytes) : Bool :=
  errorKeywords.any fun k => (find k (line.map lowerByte)).isSome

/-- `extract_error_core`: up to three error lines or, without any, the first three lines. -/
def extractErrorCore (errorMessage : Bytes) : Bytes :=
  let lines := getFields 10 errorMessage
  let errorLines := (lines.filter isErrorLine).take 3
  let kept := if errorLines = [] then (lines.filter fun l => l ≠ []).take 3 else errorLines
  [(10 : UInt8)].intercalate kept

/-! ## Rewriting -/

def colon : UInt8 := 58

def dash : UInt8 := 45

/-- `[^\s:]` -/
def isPathByte (c : UInt8) : Bool := !isSpace c && c ≠ colon

/-- `[0-9a-fA-F]` -/
def isHexDigit (c : UInt8) : Bool := isDigit c || (97 ≤ c && c ≤ 102) || (65 ≤ c && c ≤ 70)

/-- `\d` -/
def digit : Regex := .one isDigit

/-- `/[^\s:]+/` -/
def pathRegex : Regex := .sequence (.char 47) [.many isPathByte, .char 47]

/-- `:(\d+):` -/
def lineRegex : Regex := .sequence (.char colon) [.many isDigit, .char colon]

/-- `0x[0-9a-fA-F]+` -/
def hexRegex : Regex := .sequence (.char 48) [.char 120, .many isHexDigit]

/-- `\d{2}:\d{2}` -/
def hourMinute : Regex := .sequence digit [digit, .char colon, digit, digit]

/-- `\d{4}-\d{2}-\d{2}[ T]\d{2}:\d{2}:\d{2}(\.\d+)?(Z|[+-]\d{2}:\d{2})?` -/
def timeRegex : Regex :=
  .sequence digit
    [digit, digit, digit, .char dash, digit, digit, .char dash, digit, digit,
      .one fun c => c = 32 || c = 84, hourMinute, .char colon, digit, digit,
      .opt (.sequence (.char 46) [.many isDigit]),
      .opt (.alt (.char 90) (.sequence (.one fun c => c = 43 || c = dash) [hourMinute]))]

/-- `\s+` -/
def spaceRegex : Regex := .many isSpace

/-- `normalize_error_message`. -/
def normalizeErrorMessage (rawError : Bytes) : Bytes :=
  let normalized := pathRegex.replaceAll (bytes "<PATH>/") rawError
  let normalized := lineRegex.replaceAll (bytes ":<LINE>:") normalized
  let normalized := hexRegex.replaceAll (bytes "<HEX>") normalized
  let normalized := timeRegex.replaceAll (bytes "<TIMESTAMP>") normalized
  let normalized := spaceRegex.replaceAll (bytes " ") normalized
  normalized.map lowerByte

/-- `compute_error_signature`. -/
def computeErrorSignature (errorMessage : Bytes) : Bytes :=
  rollingText (normalizeErrorMessage (extractErrorCore errorMessage))

end Nazg.Brain

/-!
## Learning from failures

A failure is recorded under its signature. When three failures of the signature are similar
to the one just recorded (it is one of them), they make a pattern, or are added to the one
there is.
-/

namespace Nazg.Brain

open Lib Lib.Sqlite Nexus

structure FailureContext where
  failureType : Bytes
  errorMessage : Bytes
  beforeSnapshotId : Int := 0

structure RecordHost extends LearnHost where
  recorded : Bool
  similarRead : Bool
  patternsRead : Bool

/-- What is stored of a failure. -/
def failureRow (now projectId : Int64) (context : FailureContext) : FailureRow where
  projectId := projectId
  failureType := .ofCStr context.failureType
  errorSignature := .ofCStr (computeErrorSignature context.errorMessage)
  errorMessage := .ofCStr context.errorMessage
  beforeSnapshotId := if 0 < context.beforeSnapshotId then some context.beforeSnapshotId else none
  timestamp := now

/-- `record_failure_with_context`. -/
def BrainDb.insertFailure (row : FailureRow) (db : BrainDb) : BrainDb :=
  { db with
    failures := db.failures.insertRow row
    failuresWf := db.failuresWf.insertRow row }

section

variable (d : Doubles) (engine : RegexEngine)

/-- `record_failure`: the id, unless something throws. -/
def recordFailure (host : RecordHost) (projectId : Int64) (context : FailureContext)
    (db : BrainDb) : Option Int × BrainDb :=
  let errorSignature := computeErrorSignature context.errorMessage
  if ¬ host.recorded then (some 0, db)
  else
    let db := db.insertFailure (failureRow host.now projectId context)
    let failureId := db.failures.lastId
    let similar := PatternMatcher.findSimilarFailures d host.order host.similarRead projectId
      errorSignature context.errorMessage 10 db
    if similar.length < 3 then (some failureId, db)
    else
      match findMatchingPatterns engine host.order host.patternsRead projectId errorSignature
        context.failureType context.errorMessage db with
      | none => (none, db)
      | some [] =>
          match learnPattern host.toLearnHost projectId (similar.map SimilarFailure.failureId) db with
          | (none, db) => (none, db)
          | (some _, db) => (some failureId, db)
      | some (p :: _) =>
          (some failureId, linkFailureToPattern host.toLearnHost failureId p.id
            (updatePatternStats host.toLearnHost p.id db))

end

end Nazg.Brain

import Mathlib.Data.List.Dedup
import Mathlib.Order.Defs.LinearOrder
import Nazg.Lib.Words
import Nazg.Nexus.Failures

/-!
# How similar two error messages are

Seven tenths of the score are the words that two messages share and three tenths the
distance of Levenshtein. The scores are floating-point numbers. What is computed in them is
a parameter; the counts that go into them are not.
-/

namespace Nazg.Brain

open Lib Lib.Sqlite Nexus

/-- The arithmetic of `double` that a score needs. -/
structure Doubles where
  Score : Type
  order : LinearOrder Score
  zero : Score
  half : Score
  one : Score
  /-- The quotient of two numbers, the second positive. -/
  ratio : Nat → Nat → Score
  /-- `1.0 - x` -/
  complement : Score → Score
  /-- `0.7 * x + 0.3 * y` -/
  weigh : Score → Score → Score

instance (d : Doubles) : LinearOrder d.Score := d.order

/-! ## Characters -/

/-- A row of the matrix behind its first entry, from the row above and the entry to the
left. -/
def levenshteinEntries (c : UInt8) : List UInt8 → List Nat → Nat → List Nat
  | d :: s, diagonal :: above :: prev, left =>
      let cost := if c = d then 0 else 1
      let entry := min (min (above + 1) (left + 1)) (diagonal + cost)
      entry :: levenshteinEntries c s (above :: prev) entry
  | _, _, _ => []

/-- The rows of the matrix, one for each character. -/
def levenshteinRows (s2 : Bytes) : Bytes → Nat → List Nat → List Nat
  | [], _, prev => prev
  | c :: s1, i, prev =>
      levenshteinRows s2 s1 (i + 1) ((i + 1) :: levenshteinEntries c s2 prev (i + 1))

def levenshteinDistance (s1 s2 : Bytes) : Nat :=
  (levenshteinRows s2 s1 0 (List.range (s2.length + 1))).getLastD 0

/-! ## Words -/

def tokenizeError (error : Bytes) : List Bytes :=
  ((getWords error).map fun word => (word.map lowerByte).filter fun c => !isPunct c).filter
    fun word => 2 < word.length && !word.all isDigit

/-! ## Scores -/

section

variable (d : Doubles)

def levenshteinSimilarity (a b : Bytes) : d.Score :=
  if a = [] ∧ b = [] then d.one
  else if a = [] ∨ b = [] then d.zero
  else d.complement (d.ratio (levenshteinDistance a b) (max a.length b.length))

/-- The words in common among all. -/
def tokenSimilarity (errorA errorB : Bytes) : d.Score :=
  let setA := (tokenizeError errorA).dedup
  let setB := (tokenizeError errorB).dedup
  if setA = [] ∧ setB = [] then d.one
  else if setA = [] ∨ setB = [] then d.zero
  else
    let intersection := (setA.filter fun t => t ∈ setB).length
    d.ratio intersection (setA.length + setB.length - intersection)

def computeSimilarity (errorA errorB : Bytes) : d.Score :=
  d.weigh (tokenSimilarity d errorA errorB) (levenshteinSimilarity d errorA errorB)

end

/-!
## Patterns of failures

Failures with one signature that are similar make a pattern. A later failure is matched
against the patterns of its project, by the signature or by the regular expression that a
pattern was stored with.

The regular expressions are whatever messages were stored, so the engine that reads them
is a parameter. Converting a count that does not fit an `int` throws, and then nothing is
returned.
-/

structure Pattern where
  id : Int
  signature : Bytes
  name : Bytes
  failureType : Bytes
  errorRegex : Bytes
  occurrenceCount : Int
  firstSeen : Int
  lastSeen : Int
  failureIds : List Int
  triggerConditionsJson : Bytes
  resolutionStrategiesJson : Bytes
  deriving DecidableEq

structure SimilarFailure (Score : Type) where
  failureId : Int
  similarityScore : Score
  errorMessage : Bytes
  errorSignature : Bytes
  timestamp : Int
  wasResolved : Bool
  resolutionType : Bytes

/-- `std::regex_search` for a pattern in a text, ignoring case: nothing if the pattern is
not a regular expression. -/
abbrev RegexEngine := Bytes → Bytes → Option Bool

structure BrainDb where
  failures : Table FailureRow
  patterns : Patterns
  failuresWf : failures.Wf

/-! ## Rows -/

/-- Without blanks at the ends. -/
def trim (s : Bytes) : Bytes :=
  let isBlank := fun c : UInt8 => decide (c = 32 ∨ c = 9 ∨ c = 10 ∨ c = 13)
  ((s.dropWhile isBlank).reverse.dropWhile isBlank).reverse

/-- `parse_failure_ids_json`. -/
def parseFailureIdsJson (json : Bytes) : Option (List Int) :=
  if json = [] ∨ json = bytes "[]" then some []
  else
    let numbers := json.filter fun c => c ≠ 91 ∧ c ≠ 93
    (((getFields 44 numbers).map trim).filter fun s => s ≠ []).mapM stoll

/-- `failure_ids_to_json`. -/
def failureIdsToJson (ids : List Int64) : Bytes :=
  if ids = [] then bytes "[]"
  else bytes "[" ++ ([44].intercalate (ids.map fun id => decimal id.toInt) ++ bytes "]")

/-- `parse_pattern`. -/
def parsePattern (row : PatternMap) : Option Pattern :=
  match stoi row.occurrenceCount, parseFailureIdsJson (row.failureIdsJson.getD []) with
  | some occurrenceCount, some failureIds =>
      some
        { id := row.id
          signature := row.patternSignature
          name := row.patternName
          failureType := row.failureType
          errorRegex := row.errorRegex.getD []
          occurrenceCount := occurrenceCount
          firstSeen := row.firstSeen
          lastSeen := row.lastSeen
          failureIds := failureIds
          triggerConditionsJson := row.triggerConditionsJson.getD []
          resolutionStrategiesJson := row.resolutionStrategiesJson.getD [] }
  | _, _ => none

/-! ## Matching -/

def matchesErrorPattern (engine : RegexEngine) (error patternRegex : Bytes) : Bool :=
  patternRegex ≠ [] && (engine patternRegex error).getD false

/-- `PatternMatcher::list_patterns`, of rows that may not be readable. -/
def PatternMatcher.listPatterns (o : RowOrder) (read : Bool) (projectId : Int64) (limit : Nat)
    (db : BrainDb) : Option (List Pattern) :=
  (if read then Nexus.listPatterns o projectId limit db.patterns else []).mapM parsePattern

/-- `find_matching_patterns`. -/
def findMatchingPatterns (engine : RegexEngine) (o : RowOrder) (read : Bool) (projectId : Int64)
    (errorSignature failureType errorMessage : Bytes) (db : BrainDb) : Option (List Pattern) :=
  (PatternMatcher.listPatterns o read projectId 1000 db).map fun patterns =>
    patterns.filter fun p =>
      (failureType = [] || p.failureType = failureType) &&
        (p.signature = errorSignature ||
          p.errorRegex ≠ [] && errorMessage ≠ [] &&
            matchesErrorPattern engine errorMessage p.errorRegex)

section

variable (d : Doubles)

/-- `PatternMatcher::find_similar_failures`, the most similar first. -/
def PatternMatcher.findSimilarFailures (o : RowOrder) (read : Bool) (projectId : Int64)
    (errorSignature errorMessage : Bytes) (limit : Nat) (db : BrainDb) :
    List (SimilarFailure d.Score) :=
  let exactMatches :=
    if read then Nexus.findSimilarFailures o projectId errorSignature (limit * 2) db.failures else []
  let similar := exactMatches.map fun m =>
    { failureId := m.id
      similarityScore := computeSimilarity d errorMessage m.errorMessage
      errorMessage := m.errorMessage
      errorSignature := m.errorSignature
      timestamp := m.timestamp
      wasResolved := m.resolved
      resolutionType := m.resolutionType }
  (o.orderBy (fun s : SimilarFailure d.Score => OrderDual.toDual s.similarityScore)
    (similar.filter fun s => d.half ≤ s.similarityScore)).take limit

end

/-! ## Learning -/

/-- What the words of an error say of it. -/
def knownErrors : List (List Bytes × Bytes) :=
  [([bytes "undefined reference"], bytes "Undefined Reference"),
    ([bytes "no such file"], bytes "Missing File"),
    ([bytes "cannot find"], bytes "Missing Dependency"),
    ([bytes "permission denied"], bytes "Permission Error"),
    ([bytes "segmentation fault", bytes "sigsegv"], bytes "Segmentation Fault"),
    ([bytes "assertion", bytes "assert"], bytes "Assertion Failure"),
    ([bytes "timeout"], bytes "Timeout Error"),
    ([bytes "out of memory", bytes "oom"], bytes "Out of Memory")]

/-- `generate_pattern_name`. -/
def generatePatternName (errorMessages : List Bytes) (failureType : Bytes) : Bytes :=
  match errorMessages with
  | [] => failureType ++ bytes " Pattern"
  | firstError :: _ =>
      let lowerError := firstError.map lowerByte
      match knownErrors.find? fun e => e.1.any fun words => (find words lowerError).isSome with
      | some e => e.2
      | none =>
          let common := [bytes "error", bytes "error:", bytes "fatal", bytes "warning"]
          let words := ((getWords firstError).filter fun word =>
            word.map lowerByte ∉ common ∧ 3 < word.length).take 3
          if words = [] then failureType ++ bytes " Pattern" else (bytes " ").intercalate words

/-- `extract_error_pattern`: the first three lines. -/
def extractErrorPattern (errorMessage : Bytes) : Bytes :=
  (((getFields 10 errorMessage).filter fun l => l ≠ []).take 3).flatMap fun l => l ++ [10]

/-- Which statements succeed, and when it is. -/
structure LearnHost where
  now : Int64
  order : RowOrder
  failureRead : Int → Bool
  patternRead : Bool
  patternRecorded : Bool
  statisticsUpdated : Bool

/-- `update_pattern_stats`. -/
def updatePatternStats (host : LearnHost) (patternId : Int) (db : BrainDb) : BrainDb :=
  if host.statisticsUpdated then
    { db with patterns := updatePatternStatistics host.now patternId 1 db.patterns }
  else db

/-- `link_failure_to_pattern`. -/
def linkFailureToPattern (host : LearnHost) (failureId patternId : Int) (db : BrainDb) : BrainDb :=
  if host.statisticsUpdated then
    { db with patterns := Nexus.linkFailureToPattern host.now failureId patternId db.patterns }
  else db

/-- `learn_pattern` without a name: the id, unless something throws. -/
def learnPattern (host : LearnHost) (projectId : Int64) (similarFailureIds : List Int)
    (db : BrainDb) : Option Int × BrainDb :=
  let failure := fun id => if host.failureRead id then getFailure id db.failures else none
  match similarFailureIds.head?.bind failure with
  | none => (some 0, db)
  | some first =>
      let existing := if host.patternRead then
        getPatternBySignature projectId first.errorSignature db.patterns else none
      match existing.map parsePattern with
      | some none => (none, db)
      | some (some existing) => (some existing.id, updatePatternStats host existing.id db)
      | none =>
          let messages := (similarFailureIds.filterMap failure).map FailureMap.errorMessage
          let recorded := if host.patternRecorded then
            recordPattern host.now projectId first.errorSignature
              (generatePatternName messages first.failureType) first.failureType
              (extractErrorPattern first.errorMessage) (bytes "\x7b\x7d") db.patterns
            else (0, db.patterns)
          let db := { db with patterns := recorded.2 }
          if 0 < recorded.1 then
            (some recorded.1, similarFailureIds.foldl
              (fun db id => linkFailureToPattern host id recorded.1 db) db)
          else (some recorded.1, db)

end Nazg.Brain

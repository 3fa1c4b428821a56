import Nazg.Bot.GitDoctor
import Nazg.Lib.BinaryFloat
import Nazg.Lib.Brackets
import Nazg.Lib.QuotedText

/-!
# Reading the report of the git doctor

`GitDoctorBot::parse_report` looks for the names of the fields in quotes. A section goes from its
opening bracket to where as many have been closed, the notes are cut at commas, and a number
is read as a `double`.
-/

namespace Nazg.Bot

open Lib

/-- `Status`. -/
inductive RunStatus where
  | running
  | success
  | warning
  | critical
  | error
  deriving DecidableEq

def stringToStatus (s : Bytes) : RunStatus :=
  if s = bytes "ok" ∨ s = bytes "success" then .success
  else if s = bytes "running" then .running
  else if s = bytes "warning" then .warning
  else if s = bytes "critical" then .critical
  else .error

/-- What is found under each name of `metrics`. -/
structure GitMetrics where
  webUiReachable : Option Bytes := none
  httpCloneAvailable : Option Bytes := none
  gitUserExists : Option Bytes := none
  fcgiwrapSocketExists : Option Bytes := none
  repoCount : Option Bytes := none
  totalSizeMb : Option Bytes := none
  repoPath : Option Bytes := none
  diskUsedPct : Option Bytes := none
  diskFree : Option Bytes := none
  servicesJson : Option Bytes := none
  notesJson : Option Bytes := none

structure ReportData where
  host : Bytes := []
  timestamp : Int := 0
  metrics : GitMetrics := {}
  status : RunStatus := .success
  notes : List Bytes := []
  rawJson : Bytes

namespace GitDoctorBot

/-! ## Pieces of the text -/

/-- What follows the first place of a pattern. -/
def afterFirst (pat s : Bytes) : Option Bytes := (fromFirst pat s).map fun t => t.drop pat.length

/-- As far as the next quote. -/
def untilQuote (s : Bytes) : Option Bytes := (cut 34 s).map Prod.fst

/-- From an opening bracket to where the count is zero, or nothing. -/
def closed (opening closing : UInt8) : Bytes → Bytes
  | [] => []
  | c :: s =>
      let r := span opening closing 1 s
      if r.2.2 = 0 then c :: r.1 else []

/-- `extract_section` and `extract_array`, which differ in the brackets. -/
def extract (opening closing : UInt8) (key json : Bytes) : Bytes :=
  match fromFirst (marker key (bytes ": ")) json with
  | none => []
  | some s => closed opening closing (s.dropWhile (· ≠ opening))

def extractSection (key json : Bytes) : Bytes := extract 123 125 key json

def extractArray (key json : Bytes) : Bytes := extract 91 93 key json

def findBool (section' key : Bytes) : Option Bool :=
  (afterFirst (marker key (bytes ":")) section').bind fun s =>
    let value := s.dropWhile isSpace
    if bytes "true" <+: value then some true
    else if bytes "false" <+: value then some false else none

def findString (section' key : Bytes) : Option Bytes :=
  (afterFirst (marker key (bytes ": ")) section').bind fun s =>
    (cut 34 s).bind fun r => untilQuote r.2

/-- `std::stod` of digits and points, as far as they are one number. -/
def stod (s : Bytes) : Option ℚ :=
  let whole := s.takeWhile isDigit
  let fraction :=
    match s.dropWhile isDigit with
    | 46 :: rest => rest.takeWhile isDigit
    | _ => []
  if whole = [] ∧ fraction = [] then none
  else some (digitsValue (whole ++ fraction) / 10 ^ fraction.length)

/-- The conversion to `int64_t` is undefined from `2 ^ 63` on. -/
def findNumber (section' key : Bytes) : Option Int :=
  (afterFirst (marker key (bytes ": ")) section').bind fun s =>
    let digits := (s.dropWhile isSpace).takeWhile fun c => isDigit c || c = 46
    (stod digits).bind fun q => if q < 2 ^ 63 then some (truncate (binary64 q)) else none

/-! ## The notes -/

/-- Without white space around it, and without quotes if it has both. -/
def trimItem (s : Bytes) : Bytes :=
  let s := ((s.dropWhile isSpace).reverse.dropWhile isSpace).reverse
  if s.head? = some 34 ∧ s.getLast? = some 34 then (s.drop 1).dropLast else s

def splitNotes (array : Bytes) : List Bytes :=
  ((splitServices ((array.drop 1).dropLast)).map trimItem).filter fun item => item ≠ []

/-! ## The report -/

def boolMetric (value : Option Bool) : Option Bytes := value.map GitReport.boolText

def readMetrics (json : Bytes) : GitMetrics :=
  let checks := extractSection (bytes "checks") json
  let repositories := extractSection (bytes "repositories") json
  let disk := extractSection (bytes "disk") json
  let services := extractSection (bytes "services") json
  let notes := extractArray (bytes "notes") json
  { webUiReachable := boolMetric (findBool checks (bytes "web_ui_reachable"))
    httpCloneAvailable := findString checks (bytes "http_clone_available")
    gitUserExists := boolMetric (findBool checks (bytes "git_user_exists"))
    fcgiwrapSocketExists := boolMetric (findBool checks (bytes "fcgiwrap_socket_exists"))
    repoCount := (findNumber repositories (bytes "count")).map decimal
    totalSizeMb := (findNumber repositories (bytes "total_size_mb")).map decimal
    repoPath := findString repositories (bytes "path")
    diskUsedPct := (findNumber disk (bytes "used_pct")).map decimal
    diskFree := findString disk (bytes "free")
    servicesJson := if services = [] then none else some services
    notesJson := if notes = [] then none else some notes }

/-- The timestamp ends at a comma or a brace. -/
def readTimestamp (json : Bytes) : Option Int :=
  match afterFirst (marker (bytes "timestamp") (bytes ": ")) json with
  | none => some 0
  | some s =>
      if s.any fun c => c = 44 || c = 125 then stoll (s.takeWhile fun c => c ≠ 44 && c ≠ 125)
      else some 0

/-- A string that is found as it stands behind its name. -/
def readString (key json : Bytes) : Option Bytes :=
  (afterFirst (marker key (bytes ": \"")) json).bind untilQuote

/-- `parse_report`; `none` for the exception of `std::stoll`. -/
def parseReport (json : Bytes) : Option ReportData :=
  (readTimestamp json).map fun timestamp =>
    { host := (readString (bytes "host") json).getD []
      timestamp := timestamp
      metrics := readMetrics json
      status := ((readString (bytes "status") json).map stringToStatus).getD .success
      notes := splitNotes (extractArray (bytes "notes") json)
      rawJson := json }

end GitDoctorBot

end Nazg.Bot

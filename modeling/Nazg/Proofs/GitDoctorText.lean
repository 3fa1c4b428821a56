import Nazg.Bot.GitDoctor
import Nazg.Lib.QuotedText

/-!
# The report of the git doctor as strings in quotes

Every member has its name in quotes, and what stands between two strings is known. So a name
is found at its own place, as long as no value brings a quote of its own.
-/

namespace Nazg.Bot

open Lib

namespace GitReport

/-! ## Gaps -/

/-- A line ends, and a name of the report or of one of its sections follows. -/
def nextMember : Bytes := bytes ",\n" ++ bytes "  "

def nextInner : Bytes := bytes ",\n" ++ bytes "    "

/-- A section begins, or ends. -/
def sectionStart : Bytes := bytes "\x7b\n" ++ bytes "    "

def sectionEnd : Bytes := bytes "\n  \x7d,\n" ++ bytes "  "

def sectionClose : Bytes := bytes "\x7d,\n  "

theorem sectionEnd_eq : sectionEnd = bytes "\n  " ++ sectionClose := rfl

/-- With something before the first string. -/
def behind (gap : Bytes) : List (Bytes × Quoted) → List (Bytes × Quoted)
  | [] => []
  | (g, q) :: l => (gap ++ g, q) :: l

/-! ## Sections -/

def headPieces (r : GitReport) : List (Bytes × Quoted) :=
  [(bytes "\x7b\n" ++ bytes "  ", .key (bytes "host")),
    (bytes ": ", .value r.host),
    (nextMember, .key (bytes "timestamp")),
    (bytes ": " ++ (decimal r.timestamp.toInt ++ nextMember), .key (bytes "git_server")),
    (bytes ": " ++ sectionStart, .key (bytes "type")),
    (bytes ": ", .value r.serverType),
    (nextInner, .key (bytes "installed")),
    (bytes ": " ++ (boolText r.installed ++ nextInner), .key (bytes "version")),
    (bytes ": ", .value r.version),
    (nextInner, .key (bytes "config_path")),
    (bytes ": ", .value r.configPath),
    (nextInner, .key (bytes "config_exists")),
    (bytes ": " ++ (boolText r.configExists ++ nextInner), .key (bytes "config_readable")),
    (bytes ": " ++ (boolText r.configReadable ++ sectionEnd), .key (bytes "services"))]

def servicesPieces (r : GitReport) : List (Bytes × Quoted) :=
  [(sectionStart, .key (bytes "nginx")),
    (bytes ": ", .value r.nginx.text),
    (nextInner, .key (bytes "fcgiwrap")),
    (bytes ": ", .value r.fcgiwrap.text)]

def repositoriesPieces (r : GitReport) : List (Bytes × Quoted) :=
  [(sectionStart, .key (bytes "path")),
    (bytes ": ", .value r.repoPath),
    (nextInner, .key (bytes "count")),
    (bytes ": " ++ (decimal r.repoCount ++ nextInner), .key (bytes "total_size_mb"))]

def diskPieces (r : GitReport) : List (Bytes × Quoted) :=
  [(sectionStart, .key (bytes "path")),
    (bytes ": ", .value r.repoPath),
    (nextInner, .key (bytes "used_pct")),
    (bytes ": " ++ (decimal r.diskUsedPct ++ nextInner), .key (bytes "free")),
    (bytes ": ", .value r.diskFree)]

def checksPieces (r : GitReport) : List (Bytes × Quoted) :=
  [(sectionStart, .key (bytes "web_ui_reachable")),
    (bytes ": " ++ (boolText r.webUiReachable ++ nextInner), .key (bytes "http_clone_available")),
    (bytes ": ", .value r.httpClone.text),
    (nextInner, .key (bytes "git_user_exists")),
    (bytes ": " ++ (boolText r.gitUserExists ++ nextInner), .key (bytes "git_user_shell")),
    (bytes ": ", .value r.gitUserShell),
    (nextInner, .key (bytes "fcgiwrap_socket_exists"))]

def notePieces (r : GitReport) : List (Bytes × Quoted) :=
  match r.note with
  | none => []
  | some note => [(bytes ": [", .value note)]

/-- What follows the last quote. -/
def ending (r : GitReport) : Bytes :=
  match r.note with
  | none => bytes ": []" ++ bytes "\n\x7d\n"
  | some _ => bytes "]" ++ bytes "\n\x7d\n"

def noteText (r : GitReport) : Bytes := r.note.getD []

/-! ## What follows the name of a section -/

def fromStatus (r : GitReport) : List (Bytes × Quoted) :=
  (bytes ": ", .value r.status.text) :: (nextMember, .key (bytes "notes")) :: r.notePieces

def fromChecks (r : GitReport) : List (Bytes × Quoted) :=
  behind (bytes ": ") r.checksPieces ++
    (bytes ": " ++ (boolText r.fcgiwrapSocketExists ++ sectionEnd), .key (bytes "status")) ::
      r.fromStatus

def fromDisk (r : GitReport) : List (Bytes × Quoted) :=
  behind (bytes ": ") r.diskPieces ++ (sectionEnd, .key (bytes "checks")) :: r.fromChecks

def fromRepositories (r : GitReport) : List (Bytes × Quoted) :=
  behind (bytes ": ") r.repositoriesPieces ++
    (bytes ": " ++ (decimal r.totalSizeMb ++ sectionEnd), .key (bytes "disk")) :: r.fromDisk

def fromServices (r : GitReport) : List (Bytes × Quoted) :=
  behind (bytes ": ") r.servicesPieces ++
    (bytes "\n  \x7d" ++ nextMember, .key (bytes "repositories")) :: r.fromRepositories

def pieces (r : GitReport) : List (Bytes × Quoted) := r.headPieces ++ r.fromServices

/-! ## Where a section ends -/

def afterChecks (r : GitReport) : Bytes :=
  sectionClose ++ 34 :: (bytes "status" ++ 34 :: quotedText r.fromStatus r.ending)

def checksLast (r : GitReport) : Bytes :=
  bytes ": " ++ (boolText r.fcgiwrapSocketExists ++ bytes "\n  ")

def afterDisk (r : GitReport) : Bytes :=
  sectionClose ++ 34 :: (bytes "checks" ++ 34 :: quotedText r.fromChecks r.ending)

def afterRepositories (r : GitReport) : Bytes :=
  sectionClose ++ 34 :: (bytes "disk" ++ 34 :: quotedText r.fromDisk r.ending)

def repositoriesLast (r : GitReport) : Bytes :=
  bytes ": " ++ (decimal r.totalSizeMb ++ bytes "\n  ")

theorem quotedText_behind (gap : Bytes) {l : List (Bytes × Quoted)} (hl : l ≠ []) (rest : Bytes) :
    quotedText (behind gap l) rest = gap ++ quotedText l rest := by
  cases l with
  | nil => exact absurd rfl hl
  | cons p l => rw [behind, quotedText, quotedText, List.append_assoc]

theorem fromChecks_eq (r : GitReport) :
    quotedText r.fromChecks r.ending =
      bytes ": " ++ quotedText r.checksPieces (r.checksLast ++ r.afterChecks) := by
  have hne : r.checksPieces ≠ [] := List.cons_ne_nil _ _
  rw [fromChecks, quotedText_append, quotedText_behind _ hne, quotedText, sectionEnd_eq, checksLast,
    afterChecks, Quoted.text]
  simp only [List.append_assoc]

theorem fromDisk_eq (r : GitReport) :
    quotedText r.fromDisk r.ending =
      bytes ": " ++ quotedText r.diskPieces (bytes "\n  " ++ r.afterDisk) := by
  have hne : r.diskPieces ≠ [] := List.cons_ne_nil _ _
  rw [fromDisk, quotedText_append, quotedText_behind _ hne, quotedText, sectionEnd_eq, afterDisk,
    Quoted.text, List.append_assoc]

theorem fromRepositories_eq (r : GitReport) :
    quotedText r.fromRepositories r.ending =
      bytes ": " ++ quotedText r.repositoriesPieces (r.repositoriesLast ++ r.afterRepositories) := by
  have hne : r.repositoriesPieces ≠ [] := List.cons_ne_nil _ _
  rw [fromRepositories, quotedText_append, quotedText_behind _ hne, quotedText, sectionEnd_eq,
    repositoriesLast, afterRepositories, Quoted.text]
  simp only [List.append_assoc]

/-! ## The text -/

theorem notesArray_eq (r : GitReport) :
    bytes ": " ++ (r.notesArray ++ bytes "\n\x7d\n") = quotedText r.notePieces r.ending := by
  rw [notesArray, notePieces, ending]
  cases r.note with
  | none => rfl
  | some note =>
      simp only [quotedText, Quoted.text, inQuotes, List.append_assoc, List.cons_append,
        List.nil_append]
      rfl

set_option maxRecDepth 4096 in
theorem text_eq (r : GitReport) : r.text = quotedText r.pieces r.ending := by
  rw [text]
  simp only [gitServerText, servicesObject, repositoriesText, diskText, checksText, member,
    inQuotes, List.append_assoc, List.cons_append, List.nil_append, notesArray_eq]
  simp only [pieces, headPieces, fromServices, servicesPieces, fromRepositories,
    repositoriesPieces, fromDisk, diskPieces, fromChecks, checksPieces, fromStatus, behind,
    nextMember, nextInner, sectionStart, sectionEnd, quotedText, Quoted.text, List.append_assoc,
    List.cons_append, List.nil_append]

theorem alternates_pieces (r : GitReport) : alternates r.pieces r.ending = true := by
  obtain ⟨host, timestamp, serverType, installed, version, configPath, configExists,
    configReadable, nginx, fcgiwrap, repoPath, repoCount, totalSizeMb, diskUsedPct, diskFree,
    webUiReachable, httpClone, gitUserExists, gitUserShell, fcgiwrapSocketExists, status, note⟩ := r
  cases note with
  | none => rfl
  | some note => rfl

/-! ## Quotes -/

/-- No value has a quote in it. -/
structure NoQuotes (r : GitReport) : Prop where
  host : 34 ∉ r.host
  serverType : 34 ∉ r.serverType
  version : 34 ∉ r.version
  configPath : 34 ∉ r.configPath
  repoPath : 34 ∉ r.repoPath
  diskFree : 34 ∉ r.diskFree
  gitUserShell : 34 ∉ r.gitUserShell
  note : ∀ note ∈ r.note, 34 ∉ note

theorem quote_notMem_decimal (n : Int) : (34 : UInt8) ∉ decimal n :=
  fun h => absurd (lt_of_mem_decimal h) (by decide)

theorem quote_notMem_boolText (b : Bool) : (34 : UInt8) ∉ boolText b := by
  cases b <;> decide

theorem quote_notMem_unit (s : UnitStatus) : (34 : UInt8) ∉ s.text := by
  cases s <;> decide

theorem quote_notMem_backend (b : HttpBackend) : (34 : UInt8) ∉ b.text := by
  cases b <;> decide

theorem quote_notMem_severity (s : Severity) : (34 : UInt8) ∉ s.text := by
  cases s <;> decide

theorem plain_notePieces {r : GitReport} (h : r.NoQuotes) : Unquoted r.notePieces := by
  rw [notePieces]
  split
  · exact fun p hp => absurd hp List.not_mem_nil
  · next note hnote =>
      have hgap : (34 : UInt8) ∉ bytes ": [" := by decide
      exact List.forall_mem_singleton.2 ⟨hgap, h.note note hnote⟩

theorem plain_checksPieces {r : GitReport} (h : r.NoQuotes) : Unquoted r.checksPieces := by
  rw [Unquoted]
  simp +decide only [checksPieces, Quoted.text, List.forall_mem_cons, List.mem_append, or_self,
    not_false_iff, and_self, quote_notMem_boolText, quote_notMem_backend, h.gitUserShell, nextInner,
    sectionStart]

theorem plain_diskPieces {r : GitReport} (h : r.NoQuotes) : Unquoted r.diskPieces := by
  rw [Unquoted]
  simp +decide only [diskPieces, Quoted.text, List.forall_mem_cons, List.mem_append, or_self,
    not_false_iff, and_self, quote_notMem_decimal, h.repoPath, h.diskFree, nextInner, sectionStart]

theorem plain_repositoriesPieces {r : GitReport} (h : r.NoQuotes) :
    Unquoted r.repositoriesPieces := by
  rw [Unquoted]
  simp +decide only [repositoriesPieces, Quoted.text, List.forall_mem_cons, List.mem_append,
    or_self, not_false_iff, and_self, quote_notMem_decimal, h.repoPath, nextInner, sectionStart]

theorem plain_pieces {r : GitReport} (h : r.NoQuotes) : Unquoted r.pieces := by
  have hnote := plain_notePieces h
  rw [Unquoted] at hnote ⊢
  simp +decide only [pieces, headPieces, fromServices, servicesPieces, fromRepositories,
    repositoriesPieces, fromDisk, diskPieces, fromChecks, checksPieces, fromStatus, behind,
    Quoted.text, List.cons_append, List.nil_append, List.forall_mem_cons, List.mem_append, or_self,
    not_false_iff, and_self, true_and,
    quote_notMem_decimal, quote_notMem_boolText, quote_notMem_unit, quote_notMem_backend,
    quote_notMem_severity, h.host, h.serverType, h.version, h.configPath, h.repoPath, h.diskFree,
    h.gitUserShell, nextMember, nextInner, sectionStart, sectionEnd]
  exact hnote

theorem located {r : GitReport} (h : r.NoQuotes) {k : Bytes} (hk : IsName k)
    {l' : List (Bytes × Quoted)} (hlocate : locate k r.pieces = some l') :
    Located k r.pieces l' r.ending :=
  ⟨hk, r.alternates_pieces, plain_pieces h, hlocate⟩

end GitReport

end Nazg.Bot

import Nazg.Lib.Decimal
import Nazg.Lib.Rotation

/-!
# The logger

A logger appends lines to the file of the day, and shifts the numbered files behind it when
that file has grown to the limit. File operations succeed, and all submissions are of one
day. The stream is buffered: how much of its buffer reaches the disk with an insertion is
part of a submission, and the size of the file is read from the disk.
-/

namespace Nazg.Blackbox

open Lib

inductive Level where
  | trace
  | debug
  | info
  | success
  | warn
  | error
  | fatal
  | off
  deriving DecidableEq

namespace Level

/-- The value of the enumerator. -/
def toNat : Level → Nat
  | trace => 0
  | debug => 1
  | info => 2
  | success => 3
  | warn => 4
  | error => 5
  | fatal => 6
  | off => 7

/-- `level_name`. -/
def name : Level → Bytes
  | trace => bytes "TRACE"
  | debug => bytes "DEBUG"
  | info => bytes "INFO"
  | success => bytes "SUCC"
  | warn => bytes "WARN"
  | error => bytes "ERROR"
  | fatal => bytes "FATAL"
  | off => bytes "OFF"

/-- `level_color`. -/
def color : Level → Bytes
  | trace => bytes "\x1b[90m"
  | debug => bytes "\x1b[36m"
  | info => bytes "\x1b[37m"
  | success => bytes "\x1b[92m"
  | warn => bytes "\x1b[93m"
  | error => bytes "\x1b[91m"
  | fatal => bytes "\x1b[95m"
  | off => bytes "\x1b[0m"

end Level

inductive SourceStyle where
  | none
  | basename
  | full
  deriving DecidableEq

structure Options where
  consoleColors : Bool := true
  colorInFile : Bool := false
  rotateBytes : Nat := 5 * 1024 * 1024
  rotateFiles : Int := 3
  srcStyle : SourceStyle := .basename
  padLevel : Bool := true
  tagWidth : Int := 12
  includeTid : Bool := true
  includePid : Bool := false

/-- What is submitted, with the time (`now_string`) and the numbers of the process and the
thread. -/
structure Submission where
  level : Level
  msg : Bytes
  file : Option Bytes
  line : Int
  func : Option Bytes
  tag : Option Bytes
  now : Bytes
  pid : Int
  tid : Bytes
  /-- How much of the buffer the stream writes while it takes the line. -/
  drained : Nat

/-- `std::left << std::setw(width)`. -/
def padRight (width : Int) (s : Bytes) : Bytes :=
  s ++ List.replicate (width.toNat - s.length) 32

/-- `basename_of`: what stands behind the last slash or backslash. -/
def basenameOf (path : Bytes) : Bytes :=
  (path.reverse.takeWhile fun c => c ≠ 47 ∧ c ≠ 92).reverse

/-- The part of the prefix that names the process and the thread. -/
def formatMeta (cfg : Options) (s : Submission) : Bytes :=
  if cfg.includePid ∨ cfg.includeTid then
    bytes "(" ++ (if cfg.includePid then bytes "pid=" ++ decimal s.pid else []) ++
      (if cfg.includeTid then
        (if cfg.includePid then bytes " " else []) ++ bytes "tid=" ++ s.tid
      else []) ++ bytes ") "
  else []

/-- The part of the prefix that names the place in the source. -/
def formatSource (cfg : Options) (s : Submission) : Bytes :=
  if cfg.srcStyle = .none then []
  else
    let file := s.file.getD []
    let filePart := if cfg.srcStyle = .basename then basenameOf file else file
    if filePart = [] then []
    else
      bytes "(" ++ filePart ++ bytes ":" ++ decimal s.line ++
        (match s.func with
        | none => []
        | some func => if func = [] then [] else bytes " " ++ func) ++ bytes ") "

/-- `format_prefix`. -/
def formatPrefix (cfg : Options) (s : Submission) : Bytes :=
  let tag := s.tag.getD (bytes "nazg")
  s.now ++ bytes " " ++
    (if cfg.padLevel then padRight 5 s.level.name else s.level.name) ++ bytes " [" ++
    (if cfg.tagWidth > 0 then padRight cfg.tagWidth tag else tag) ++ bytes "] " ++
    formatMeta cfg s ++ formatSource cfg s

/-- What a submission inserts into the stream. -/
def formattedLine (cfg : Options) (s : Submission) : Bytes :=
  let line := formatPrefix cfg s ++ s.msg ++ bytes "\n"
  if cfg.colorInFile ∧ cfg.consoleColors then s.level.color ++ line ++ bytes "\x1b[0m" else line

structure Logger where
  cfg : Options
  level : Level
  tuiMode : Bool
  /-- The file of the day is number 0, and the file `.i` is number `i`. -/
  files : Rotation.Files UInt8
  /-- Whether the stream is open, and what it still holds. -/
  isOpen : Bool := false
  buffer : Bytes := []
  /-- A fatal message was submitted. -/
  terminated : Bool := false

namespace Logger

def openFileIfNeeded (m : Logger) : Logger :=
  if m.isOpen then m else { m with files := Rotation.touch m.files, isOpen := true }

/-- `roll_to_today_unlocked` on the same day. -/
def rollToToday (m : Logger) : Logger := if m.isOpen then m else m.openFileIfNeeded

/-- So much of the buffer is written. -/
def drain (n : Nat) (m : Logger) : Logger :=
  { m with files := Rotation.append (m.buffer.take n) m.files, buffer := m.buffer.drop n }

def flush (m : Logger) : Logger := m.drain m.buffer.length

def close (m : Logger) : Logger := { m.flush with isOpen := false }

/-- The renamings are those of `Rotation.rotate`. -/
def maybeRotate (m : Logger) : Logger :=
  if m.cfg.rotateBytes = 0 then m
  else
    match m.files 0 with
    | none => m
    | some content =>
        if content.length < m.cfg.rotateBytes then m
        else
          let m := if m.isOpen then m.close else m
          openFileIfNeeded { m with files := Rotation.rotate m.cfg.rotateFiles.toNat m.files }

/-- The line goes into the stream, which is flushed for errors and for the terminal UI. -/
def write (s : Submission) (m : Logger) : Logger :=
  let m := drain s.drained { m with buffer := m.buffer ++ formattedLine m.cfg s }
  if m.tuiMode ∨ Level.error.toNat ≤ s.level.toNat then m.flush else m

/-- `submit`, but for the console. -/
def submit (m : Logger) (s : Submission) : Logger :=
  if m.terminated then m
  else if s.level.toNat < m.level.toNat then m
  else
    { (m.rollToToday.openFileIfNeeded.write s).maybeRotate with terminated := s.level = .fatal }

/-- The destructor, which a termination does not come to. -/
def destroy (m : Logger) : Logger :=
  if m.terminated then m else if m.isOpen then m.close else m

end Logger

end Nazg.Blackbox

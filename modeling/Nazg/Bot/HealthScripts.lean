import Mathlib.Order.Lattice
import Nazg.Bot.Hosts

/-!
# The doctor's script

What the script of the doctor makes of the readings of a host: the percentages that `bc` computes for
it, the states of the services it is asked about, and the status it reports. The bot hands
the script over without arguments.
-/

namespace Nazg.Bot

open Lib

/-! ## Severities -/

/-- The status of a report. -/
inductive Severity where
  | ok
  | warning
  | critical
  deriving DecidableEq

namespace Severity

def rank : Severity → Nat
  | ok => 0
  | warning => 1
  | critical => 2

theorem rank_injective : Function.Injective rank := by
  intro a b h
  cases a <;> cases b <;> first | rfl | cases h

instance : LinearOrder Severity := LinearOrder.lift' rank rank_injective

def text : Severity → Bytes
  | ok => bytes "ok"
  | warning => bytes "warning"
  | critical => bytes "critical"

end Severity

/-! ## Readings -/

/-- The thresholds, which the environment may set. -/
structure Thresholds where
  cpuWarn : Int := 70
  cpuCrit : Int := 90
  memWarn : Int := 80
  memCrit : Int := 90
  diskWarn : Int := 85
  diskCrit : Int := 95

/-- The line `Mem:` of `free`. -/
structure Memory where
  used : Nat
  total : Nat
  used_le : used ≤ total
  total_pos : 0 < total

inductive ServiceState where
  | running
  | stopped
  | unknown
  deriving DecidableEq

def ServiceState.text : ServiceState → Bytes
  | running => bytes "running"
  | stopped => bytes "stopped"
  | unknown => bytes "unknown"

/-- What the script finds on a host: a load in hundredths and the number of processors, the memory
and the percentage of the disk, as far as there is a command that shows them, whether there
is `bc`, and the state of a service of a name. -/
structure DoctorReadings where
  cpuLoad : Option (Nat × Nat)
  memory : Option Memory
  diskUsedPct : Option Nat
  bc : Bool
  service : Bytes → ServiceState

namespace DoctorReadings

/-- `scale=0; ($LOAD_AVG / $CPU_COUNT) * 100`. -/
def cpuLoadPct (r : DoctorReadings) : Int :=
  match r.cpuLoad with
  | none => 0
  | some (load, count) => if r.bc then ((load / (100 * count) * 100 : Nat) : Int) else 0

/-- `scale=0; ($MEM_USED / $MEM_TOTAL) * 100`. -/
def memUsedPct (r : DoctorReadings) : Int :=
  match r.memory with
  | none => 0
  | some m => if r.bc then ((m.used / m.total * 100 : Nat) : Int) else 0

def diskPct (r : DoctorReadings) : Int := (r.diskUsedPct.getD 0 : Nat)

end DoctorReadings

/-! ## The script -/

structure DoctorReport where
  cpuLoadPct : Int
  memUsedPct : Int
  diskUsedPct : Int
  services : Bytes
  status : Severity
  notes : Option Bytes

/-- The arguments; `none` where one is missing and the script stops. -/
def parseArguments (services : Bytes) : List Bytes → Option Bytes
  | [] => some services
  | [arg] => if arg = bytes "--services" then none else some services
  | arg :: value :: rest =>
      if arg = bytes "--services" then parseArguments value rest
      else parseArguments services (value :: rest)

/-- The services that the script looks at: the names between the commas of the first line, as
`xargs` leaves them. -/
def svcArray (xargs : Bytes → Bytes) (services : Bytes) : List Bytes :=
  (splitServices (services.takeWhile (· ≠ 10))).map xargs

def serviceEntry (r : DoctorReadings) (svc : Bytes) : Bytes :=
  34 :: (svc ++ bytes "\":\"" ++ (r.service svc).text ++ [34])

/-- `SERVICE_STATUS`. -/
def serviceStatus (xargs : Bytes → Bytes) (services : Bytes) (r : DoctorReadings) : Bytes :=
  123 :: ([44].intercalate ((svcArray xargs services).map (serviceEntry r)) ++ [125])

/-- What the resources alone give: status and note. -/
def resourceStatus (t : Thresholds) (cpu mem disk : Int) : Severity × Option Bytes :=
  if t.cpuCrit ≤ cpu ∨ t.memCrit ≤ mem ∨ t.diskCrit ≤ disk then
    (.critical, some (bytes "System resources critical"))
  else if t.cpuWarn ≤ cpu ∨ t.memWarn ≤ mem ∨ t.diskWarn ≤ disk then
    (.warning, some (bytes "System resources elevated"))
  else (.ok, none)

/-- `DOCTOR_SCRIPT` with its arguments, if it comes to a report. -/
def doctorScript (xargs : Bytes → Bytes) (t : Thresholds) (args : List Bytes)
    (r : DoctorReadings) : Option DoctorReport :=
  (parseArguments [] args).map fun services =>
    let json := serviceStatus xargs services r
    let found :=
      if bytes "stopped" <:+: json then
        (Severity.warning, some (bytes "Some services are not running"))
      else resourceStatus t r.cpuLoadPct r.memUsedPct r.diskPct
    { cpuLoadPct := r.cpuLoadPct
      memUsedPct := r.memUsedPct
      diskUsedPct := r.diskPct
      services := json
      status := found.1
      notes := found.2 }

/-- The report of `DoctorBot::execute` for a host: `DOCTOR_SCRIPT` is run as it is, not the text
of `get_script_content`, to which the services of the host are appended. -/
def DoctorBot.report (xargs : Bytes → Bytes) (t : Thresholds) (_host : HostConfig)
    (r : DoctorReadings) : Option DoctorReport :=
  doctorScript xargs t [] r

end Nazg.Bot

import Mathlib.Order.MinMax
import Nazg.Bot.GitDoctor
import Nazg.Lib.QuotedText

/-!
# The status of a health report

The worst of the checks that fail is what a status should be. The resources are ranked so, but the
memory is all or nothing to the doctor, the services are never handed to it, and where they
are, one that is stopped outranks everything. The git doctor reports the first check that
fails, and one of its warnings comes before a critical check.
-/

namespace Nazg.Bot

open Lib

/-- The severity of a percentage. -/
def severityAt (warn crit pct : Int) : Severity :=
  if crit ≤ pct then .critical else if warn ≤ pct then .warning else .ok

def worst : List Severity → Severity
  | [] => .ok
  | s :: l => max s (worst l)

/-- Checks that are ranked together, one after the other. -/
theorem ranked_or {a b a' b' : Prop} [Decidable a] [Decidable b] [Decidable a'] [Decidable b'] :
    (if a ∨ a' then Severity.critical else if b ∨ b' then .warning else .ok) =
      max (if a then .critical else if b then .warning else .ok)
        (if a' then .critical else if b' then .warning else .ok) := by
  by_cases ha : a
  · by_cases ha' : a'
    · simp [ha, ha']
    · by_cases hb' : b'
      · simp only [ha, ha', hb', true_or, if_true, if_false]
        rfl
      · simp only [ha, ha', hb', true_or, if_true, if_false]
        rfl
  · by_cases ha' : a'
    · by_cases hb : b
      · simp only [ha, ha', hb, or_true, if_true, if_false]
        rfl
      · simp only [ha, ha', hb, or_true, if_true, if_false]
        rfl
    · by_cases hb : b
      · by_cases hb' : b'
        · simp [ha, ha', hb, hb']
        · simp only [ha, ha', hb, hb', or_self, true_or, if_true, if_false]
          rfl
      · by_cases hb' : b'
        · simp only [ha, ha', hb, hb', or_self, or_true, if_true, if_false]
          rfl
        · simp [ha, ha', hb, hb']

theorem resourceStatus_fst (t : Thresholds) (cpu mem disk : Int) :
    (resourceStatus t cpu mem disk).1 =
      max (severityAt t.cpuWarn t.cpuCrit cpu)
        (max (severityAt t.memWarn t.memCrit mem) (severityAt t.diskWarn t.diskCrit disk)) := by
  have hfst : (resourceStatus t cpu mem disk).1 =
      if t.cpuCrit ≤ cpu ∨ t.memCrit ≤ mem ∨ t.diskCrit ≤ disk then Severity.critical
      else if t.cpuWarn ≤ cpu ∨ t.memWarn ≤ mem ∨ t.diskWarn ≤ disk then .warning else .ok := by
    rw [resourceStatus]
    split
    · rfl
    · split <;> rfl
  rw [hfst, ranked_or, ranked_or]
  rfl

theorem Severity.ok_le (s : Severity) : .ok ≤ s := Nat.zero_le s.rank

theorem severityAt_mono (warn crit : Int) {p q : Int} (h : p ≤ q) :
    severityAt warn crit p ≤ severityAt warn crit q := by
  have hcritical : ∀ s : Severity, s ≤ .critical := by
    intro s
    cases s <;> decide
  by_cases hq : crit ≤ q
  · rw [severityAt, severityAt, if_pos hq]
    exact hcritical _
  · have hp : ¬ crit ≤ p := by omega
    by_cases hw : warn ≤ p
    · have hw' : warn ≤ q := by omega
      simp [severityAt, hp, hq, hw, hw']
    · rw [severityAt, if_neg hp, if_neg hw]
      exact Severity.ok_le _

/-! ## The doctor -/

/-- The use of the memory in percent, rounded down. -/
def DoctorReadings.memoryUse (r : DoctorReadings) : Int :=
  match r.memory with
  | none => 0
  | some m => ((100 * m.used / m.total : Nat) : Int)

/-- The script never sees more than that: nothing, or all of it. -/
theorem memUsedPct_le (r : DoctorReadings) : r.memUsedPct ≤ r.memoryUse := by
  rw [DoctorReadings.memUsedPct, DoctorReadings.memoryUse]
  cases r.memory with
  | none => exact Int.le_refl 0
  | some m =>
      show (if r.bc then ((m.used / m.total * 100 : Nat) : Int) else 0) ≤
        ((100 * m.used / m.total : Nat) : Int)
      split
      · have hmul : m.used / m.total * 100 ≤ 100 * m.used / m.total := by
          rw [Nat.mul_comm]
          exact Nat.mul_div_le_mul_div_assoc 100 m.used m.total
        exact Int.ofNat_le.2 hmul
      · exact Int.natCast_nonneg _

def serviceSeverity (r : DoctorReadings) (svc : Bytes) : Severity :=
  if r.service svc = .stopped then .warning else .ok

/-- The checks of a host with these services. -/
def doctorChecks (t : Thresholds) (services : List Bytes) (r : DoctorReadings) : List Severity :=
  severityAt t.cpuWarn t.cpuCrit r.cpuLoadPct :: severityAt t.memWarn t.memCrit r.memoryUse ::
    severityAt t.diskWarn t.diskCrit r.diskPct :: services.map (serviceSeverity r)

theorem worst_services (services : List Bytes) (r : DoctorReadings) :
    worst (services.map (serviceSeverity r)) =
      if ∃ svc ∈ services, r.service svc = .stopped then .warning else .ok := by
  induction services with
  | nil => simp [worst]
  | cons svc services ih =>
      rw [List.map_cons, worst, ih, serviceSeverity]
      by_cases hsvc : r.service svc = .stopped
      · by_cases hrest : ∃ svc ∈ services, r.service svc = .stopped
        · simp [hsvc, hrest]
        · simp only [hsvc, hrest, List.mem_cons, exists_eq_or_imp, true_or, if_true, if_false]
          rfl
      · by_cases hrest : ∃ svc ∈ services, r.service svc = .stopped
        · simp only [hsvc, hrest, List.mem_cons, exists_eq_or_imp, or_true, if_true, if_false]
          rfl
        · simp [hsvc, hrest]

/-- The text of the states has the word in it where a service is stopped, and in the names. -/
theorem stopped_infix_serviceStatus (xargs : Bytes → Bytes) (services : Bytes)
    (r : DoctorReadings) :
    bytes "stopped" <:+: serviceStatus xargs services r ↔
      (∃ svc ∈ svcArray xargs services, r.service svc = .stopped) ∨
        ∃ svc ∈ svcArray xargs services, bytes "stopped" <:+: svc := by
  have hne : bytes "stopped" ≠ [] := by decide
  have hstate : ∀ state : ServiceState, bytes "stopped" <:+: state.text ↔ state = .stopped := by
    intro state
    cases state <;> decide
  have hentry : ∀ svc, bytes "stopped" <:+: serviceEntry r svc ↔
      r.service svc = .stopped ∨ bytes "stopped" <:+: svc := by
    intro svc
    have hshape : serviceEntry r svc =
        [] ++ 34 :: (svc ++ 34 :: ([58] ++ 34 :: ((r.service svc).text ++ 34 :: []))) := by
      have hbetween : bytes "\":\"" = [34, 58, 34] := rfl
      rw [serviceEntry, hbetween]
      simp
    have hquote : (34 : UInt8) ∉ bytes "stopped" := by decide
    have hnil : ¬ bytes "stopped" <:+: [] := by decide
    have hcolon : ¬ bytes "stopped" <:+: [58] := by decide
    rw [hshape, infix_append_cons hquote hne, infix_append_cons hquote hne,
      infix_append_cons hquote hne, infix_append_cons hquote hne, hstate]
    simp only [hnil, hcolon, false_or, or_comm]
  have hentries : ∀ array : List Bytes,
      bytes "stopped" <:+: [44].intercalate (array.map (serviceEntry r)) ↔
        ∃ svc ∈ array, r.service svc = .stopped ∨ bytes "stopped" <:+: svc := by
    intro array
    induction array with
    | nil => simp [hne]
    | cons svc array ih =>
        cases array with
        | nil => simp [hentry]
        | cons svc' array =>
            have hcomma : (44 : UInt8) ∉ bytes "stopped" := by decide
            rw [List.map_cons, List.map_cons, List.intercalate_cons_cons, ← List.map_cons,
              List.append_assoc, List.singleton_append, infix_append_cons hcomma hne, hentry, ih]
            simp only [List.mem_cons, exists_eq_or_imp]
  have hopening : (123 : UInt8) ∉ bytes "stopped" := by decide
  have hclosing : (125 : UInt8) ∉ bytes "stopped" := by decide
  have hbraces := infix_append_cons hopening hne []
    ([44].intercalate ((svcArray xargs services).map (serviceEntry r)) ++ [125])
  rw [List.nil_append] at hbraces
  rw [serviceStatus, hbraces, infix_append_cons hclosing hne, hentries]
  simp only [List.infix_nil, hne, false_or, or_false, and_or_left, exists_or]

variable (xargs : Bytes → Bytes) (t : Thresholds) (r : DoctorReadings)

/-- What the script sees of the resources. -/
def seenResources : Severity :=
  max (severityAt t.cpuWarn t.cpuCrit r.cpuLoadPct)
    (max (severityAt t.memWarn t.memCrit r.memUsedPct) (severityAt t.diskWarn t.diskCrit r.diskPct))

/-- What there is to see. -/
def resources : Severity :=
  max (severityAt t.cpuWarn t.cpuCrit r.cpuLoadPct)
    (max (severityAt t.memWarn t.memCrit r.memoryUse) (severityAt t.diskWarn t.diskCrit r.diskPct))

theorem status_doctorScript {args : List Bytes} {services : Bytes}
    (h : parseArguments [] args = some services) :
    (doctorScript xargs t args r).map DoctorReport.status =
      some (if (∃ svc ∈ svcArray xargs services, r.service svc = .stopped) ∨
          ∃ svc ∈ svcArray xargs services, bytes "stopped" <:+: svc then .warning
        else seenResources t r) := by
  rw [doctorScript, h]
  simp only [Option.map_some, Option.some_inj, stopped_infix_serviceStatus]
  split
  · rfl
  · exact resourceStatus_fst t r.cpuLoadPct r.memUsedPct r.diskPct

theorem worst_doctorChecks (services : List Bytes) :
    worst (doctorChecks t services r) =
      max (resources t r)
        (if ∃ svc ∈ services, r.service svc = .stopped then .warning else .ok) := by
  rw [doctorChecks, worst, worst, worst, worst_services, resources, max_assoc, max_assoc]

theorem seenResources_le : seenResources t r ≤ resources t r :=
  max_le_max (le_refl _)
    (max_le_max (severityAt_mono t.memWarn t.memCrit (memUsedPct_le r)) (le_refl _))

/-- Only the memory makes a difference. -/
theorem resources_eq_seen_iff :
    seenResources t r = resources t r ↔
      severityAt t.memWarn t.memCrit r.memoryUse ≤ seenResources t r := by
  constructor
  · intro h
    rw [h]
    exact (le_max_left _ _).trans (le_max_right _ _)
  · intro h
    refine le_antisymm (seenResources_le t r) ?_
    exact max_le (le_max_left _ _) (max_le h ((le_max_right _ _).trans (le_max_right _ _)))

/-! ## The git doctor -/

/-- The checks of a git server. -/
def gitChecks (bot : GitDoctorBot) (diskWarn diskCrit : Int) (g : GitReadings) : List Severity :=
  [if g.server = none then .critical else .ok,
    if g.nginx ≠ .running then .critical else .ok,
    if g.fcgiwrap ≠ .running ∧ (bot.runScript diskWarn diskCrit g).serverType = bytes "cgit" then
      .warning else .ok,
    severityAt diskWarn diskCrit (bot.runScript diskWarn diskCrit g).diskUsedPct,
    if g.configExists = false then .warning else .ok]

/-- A warning is reported in place of a critical disk. -/
def HidesDisk (bot : GitDoctorBot) (diskWarn diskCrit : Int) (g : GitReadings) : Prop :=
  g.server ≠ none ∧ g.nginx = .running ∧
    (g.fcgiwrap ≠ .running ∧ (bot.runScript diskWarn diskCrit g).serverType = bytes "cgit") ∧
    diskCrit ≤ (bot.runScript diskWarn diskCrit g).diskUsedPct

/-- The status without its note. -/
theorem overallStatus_fst (diskWarn diskCrit : Int) (g : GitReadings) (serverType configPath : Bytes)
    (pct : Nat) :
    (GitDoctorBot.overallStatus diskWarn diskCrit g serverType configPath pct).1 =
      if g.server = none then .critical
      else if g.nginx ≠ .running then .critical
      else if g.fcgiwrap ≠ .running ∧ serverType = bytes "cgit" then .warning
      else if diskCrit ≤ pct then .critical
      else if diskWarn ≤ pct then .warning
      else if g.configExists = false then .warning else .ok := by
  simp only [GitDoctorBot.overallStatus, apply_ite Prod.fst, Option.isNone_iff_eq_none]

/-- The first of the checks that fails is the worst of them, unless it is a warning before a
critical one. -/
theorem ranked_chain {a b c d e f : Prop} [Decidable a] [Decidable b] [Decidable c] [Decidable d]
    [Decidable e] [Decidable f] :
    (if a then Severity.critical else if b then .critical else if c then .warning
      else if d then .critical else if e then .warning else if f then .warning else .ok) =
        worst [if a then .critical else .ok, if b then .critical else .ok,
          if c then .warning else .ok, if d then .critical else if e then .warning else .ok,
          if f then .warning else .ok] ↔
      ¬ (¬ a ∧ ¬ b ∧ c ∧ d) := by
  have hcritical : ∀ s : Severity, max .critical s = .critical := by
    intro s
    cases s <;> rfl
  have hok : ∀ s : Severity, max .ok s = s := by
    intro s
    cases s <;> rfl
  by_cases ha : a
  · simp [worst, ha, hcritical]
  by_cases hb : b
  · simp [worst, ha, hb, hcritical, hok]
  by_cases hd : d
  · by_cases hc : c
    · simp only [worst, ha, hb, hc, hd, if_true, if_false, not_false_eq_true, and_self, not_true,
        iff_false, hok, hcritical]
      decide
    · simp [worst, ha, hb, hc, hd, hcritical, hok]
  · have hothers : ∀ s : Severity, s ≠ .critical → max .warning s = .warning := by
      intro s hs
      cases s with
      | ok => rfl
      | warning => rfl
      | critical => exact absurd rfl hs
    by_cases hc : c
    · by_cases he : e
      · by_cases hf : f <;> simp [worst, ha, hb, hc, hd, he, hf, hok, hothers]
      · by_cases hf : f <;> simp [worst, ha, hb, hc, hd, he, hf, hok, hothers]
    · by_cases he : e
      · by_cases hf : f <;> simp [worst, ha, hb, hc, hd, he, hf, hok, hothers]
      · by_cases hf : f <;> simp [worst, ha, hb, hc, hd, he, hf, hok, hothers]

theorem status_runScript_iff (bot : GitDoctorBot) (diskWarn diskCrit : Int) (g : GitReadings) :
    (bot.runScript diskWarn diskCrit g).status = worst (gitChecks bot diskWarn diskCrit g) ↔
      ¬ HidesDisk bot diskWarn diskCrit g := by
  have hstatus : (bot.runScript diskWarn diskCrit g).status =
      (GitDoctorBot.overallStatus diskWarn diskCrit g (bot.runScript diskWarn diskCrit g).serverType
        bot.configPath (bot.runScript diskWarn diskCrit g).diskUsedPct).1 := rfl
  rw [hstatus, overallStatus_fst, gitChecks, HidesDisk]
  refine ranked_chain.trans (not_congr ?_)
  rw [not_not, ne_eq]

/-! ## Both scripts -/

/-- Neither the memory nor a service that is stopped is worse than what the doctor sees. -/
def SeesWorst (services : List Bytes) : Prop :=
  severityAt t.memWarn t.memCrit r.memoryUse ≤ seenResources t r ∧
    ((∃ svc ∈ services, r.service svc = .stopped) → .warning ≤ seenResources t r)

/-- With services in its arguments the script is right if a service is stopped and nothing is
critical, if none is and there is a warning but a name has the word in it, or if none is, no
name has it, and the memory is not worse than what is seen. -/
def RanksServices (services : List Bytes) : Prop :=
  if ∃ svc ∈ services, r.service svc = .stopped then resources t r ≠ .critical
  else if ∃ svc ∈ services, bytes "stopped" <:+: svc then resources t r = .warning
  else severityAt t.memWarn t.memCrit r.memoryUse ≤ seenResources t r

/-- The status of each report is the worst of the checks that fail exactly under these
conditions: that of the doctor for a host, that of its script when services are handed to it, and
that of the git doctor. -/
theorem health_status_iff (host : HostConfig) (list : Bytes) (bot : GitDoctorBot)
    (diskWarn diskCrit : Int) (g : GitReadings) :
    ((DoctorBot.report xargs t host r).map DoctorReport.status =
        some (worst (doctorChecks t host.services r)) ↔ SeesWorst t r host.services) ∧
      ((doctorScript xargs t [bytes "--services", list] r).map DoctorReport.status =
        some (worst (doctorChecks t (svcArray xargs list) r)) ↔
          RanksServices t r (svcArray xargs list)) ∧
      ((bot.runScript diskWarn diskCrit g).status = worst (gitChecks bot diskWarn diskCrit g) ↔
        ¬ HidesDisk bot diskWarn diskCrit g) := by
  have hseen := resources_eq_seen_iff t r
  refine ⟨?_, ?_, status_runScript_iff bot diskWarn diskCrit g⟩
  · have hnone : svcArray xargs [] = [] := rfl
    have hempty : ¬ ∃ svc ∈ svcArray xargs [], r.service svc = .stopped := by simp [hnone]
    have hnames : ¬ ∃ svc ∈ svcArray xargs [], bytes "stopped" <:+: svc := by simp [hnone]
    have hargs : parseArguments [] [] = some [] := rfl
    rw [DoctorBot.report, status_doctorScript xargs t r hargs, Option.some_inj,
      if_neg (not_or.2 ⟨hempty, hnames⟩), worst_doctorChecks, SeesWorst, ← hseen]
    by_cases hstopped : ∃ svc ∈ host.services, r.service svc = .stopped
    · simp only [hstopped, forall_const, if_true]
      constructor
      · intro h
        have hle : resources t r ≤ seenResources t r := h ▸ le_max_left _ _
        exact ⟨le_antisymm (seenResources_le t r) hle, h ▸ le_max_right _ _⟩
      · rintro ⟨heq, hwarning⟩
        rw [← heq, max_eq_left hwarning]
    · rw [if_neg hstopped, max_eq_left (Severity.ok_le _)]
      simp [hstopped]
  · have hargs : parseArguments [] [bytes "--services", list] = some list := rfl
    rw [status_doctorScript xargs t r hargs, Option.some_inj, worst_doctorChecks, RanksServices]
    by_cases hstopped : ∃ svc ∈ svcArray xargs list, r.service svc = .stopped
    · rw [if_pos (.inl hstopped), if_pos hstopped, if_pos hstopped]
      cases resources t r <;> decide
    · by_cases hnamed : ∃ svc ∈ svcArray xargs list, bytes "stopped" <:+: svc
      · rw [if_pos (.inr hnamed), if_neg hstopped, if_neg hstopped, if_pos hnamed]
        cases resources t r <;> decide
      · rw [if_neg (not_or.2 ⟨hstopped, hnamed⟩), if_neg hstopped, if_neg hstopped, if_neg hnamed]
        rw [max_eq_left (Severity.ok_le _)]
        exact hseen

/-! ## A full memory, a service and a disk -/

/-- Ninety-nine percent of the memory in use. -/
def nearlyFull : DoctorReadings where
  cpuLoad := some (25, 4)
  memory := some ⟨99, 100, by decide, by decide⟩
  diskUsedPct := some 40
  bc := true
  service svc := if svc = bytes "nginx" then .stopped else .running

/-- The disk of a git server is full, and so is nothing else. -/
def fullDisk : GitReadings where
  hostname := bytes "git"
  timestamp := 0
  server := some (.cgit (bytes "1.2.3"))
  nginx := .running
  fcgiwrap := .stopped
  directory := some ⟨1, by decide, 1024, by decide, 99, by decide, bytes "1G"⟩
  configExists := true
  configReadable := true
  webUiReachable := true
  httpClone := .available
  gitUserShell := none
  fcgiwrapSocket := true

/-- The doctor reports that all is well, and a warning where a stopped service comes on top of it;
the git doctor reports a warning. -/
theorem understated :
    (∀ host, (DoctorBot.report id {} host nearlyFull).map DoctorReport.status = some .ok) ∧
      worst (doctorChecks {} [] nearlyFull) = .critical ∧
      (doctorScript id { cpuCrit := 0 } [bytes "--services", bytes "nginx"] nearlyFull).map
        DoctorReport.status = some .warning ∧
      worst (doctorChecks { cpuCrit := 0 } [bytes "nginx"] nearlyFull) = .critical ∧
      (GitDoctorBot.runScript {} 85 95 fullDisk).status = .warning ∧
      worst (gitChecks {} 85 95 fullDisk) = .critical := by
  refine ⟨fun _ => ?_, ?_, ?_, ?_, ?_, ?_⟩
  · rfl
  · rfl
  · rfl
  · rfl
  · rfl
  · rfl

end Nazg.Bot

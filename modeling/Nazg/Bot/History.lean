import Nazg.Lib.Decimal
import Nazg.Lib.Query

/-!
# The hosts of the bots and the runs on them

A host has a label of its own, and a run belongs to a host. Whether a statement succeeds is for
the caller to say; a run of a host that is not there is refused, and the runs of a host go
with it.
-/

namespace Nazg.Nexus

open Lib Lib.Sqlite

/-- A row of `bot_hosts`, as far as the runs need it. -/
structure BotHostRow where
  label : Text
  deriving DecidableEq

/-- A row of `bot_runs`. -/
structure BotRunRow where
  botName : Text
  hostId : Int
  startedAt : Int64
  finishedAt : Option Int64 := none
  status : Text
  exitCode : Option Int := none
  durationMs : Option Int := none
  deriving DecidableEq

/-- Both tables with what their keys guarantee. No command gives a host an empty label: it
falls back to the address, and without an address there is no host. -/
structure BotTables where
  hosts : Table BotHostRow
  runs : Table BotRunRow
  hostsWf : hosts.Wf
  runsWf : runs.Wf
  labels : hosts.data.Pairwise fun r s => r.label ≠ s.label
  labelled : ∀ r ∈ hosts.data, r.label.bytes ≠ []

/-- The map of a run; only one of the two queries joins the host. -/
structure RunMap where
  id : Int
  botName : Bytes
  status : Bytes
  exitCode : Int
  startedAt : Int
  finishedAt : Int
  durationMs : Int
  hostLabel : Option Bytes := none
  deriving DecidableEq

def readRun (x : Int × BotRunRow) : RunMap where
  id := x.1
  botName := x.2.botName.bytes
  status := x.2.status.bytes
  exitCode := x.2.exitCode.getD 0
  startedAt := x.2.startedAt.toInt
  finishedAt := (x.2.finishedAt.map Int64.toInt).getD 0
  durationMs := x.2.durationMs.getD 0

/-! ## The store -/

/-- `Store::get_bot_host_id`. -/
def getBotHostId (label : Bytes) (db : BotTables) : Option Int :=
  (db.hosts.first fun r => r.label = Text.ofCStr label).map Prod.fst

/-- The later run comes first. -/
def newest (x : Int × BotRunRow) : Int := -x.2.startedAt.toInt

/-- The runs on a host, in the order of the table. -/
def runsOn (hostId : Int) (db : BotTables) : List (Int × BotRunRow) :=
  db.runs.rows.filter fun x => x.2.hostId = hostId

/-- `Store::recent_bot_runs_for_host`. -/
def recentBotRunsForHost (o : RowOrder) (hostId : Int) (limit : Nat) (db : BotTables) :
    List RunMap :=
  ((o.orderBy newest (runsOn hostId db)).take limit).map readRun

/-- `Store::recent_bot_runs`. -/
def recentBotRuns (o : RowOrder) (botName : Bytes) (limit : Nat) (db : BotTables) : List RunMap :=
  let joined := db.runs.rows.filterMap fun x =>
    (db.hosts.get? x.2.hostId).map fun host => (x, host)
  let named := joined.filter fun j => j.1.2.botName = Text.ofCStr botName
  ((o.orderBy (fun j => newest j.1) named).take limit).map fun j =>
    { readRun j.1 with hostLabel := some j.2.label.bytes }

/-- `Store::add_bot_host`: the id, or -1 if the label is taken. -/
def addBotHost (label : Text) (hlabel : label.bytes ≠ []) (db : BotTables) : Int × BotTables :=
  if h : ∃ r ∈ db.hosts.data, r.label = label then (-1, db)
  else
    (db.hosts.lastId + 1,
      { db with
        hosts := db.hosts.insertRow ⟨label⟩
        hostsWf := db.hostsWf.insertRow _
        labels := by
          rw [Table.data_insertRow, List.pairwise_append]
          refine ⟨db.labels, List.pairwise_singleton _ _, fun r hr s hs hsame => h ⟨r, hr, ?_⟩⟩
          rw [hsame, List.mem_singleton.1 hs]
        labelled := by
          intro r hr
          rw [Table.data_insertRow, List.mem_append, List.mem_singleton] at hr
          rcases hr with hr | rfl
          · exact db.labelled r hr
          · exact hlabel })

/-- `Store::begin_bot_run`: the id, or -1. -/
def beginBotRun (now : Int64) (botName : Bytes) (hostId : Int) (db : BotTables) :
    Int × BotTables :=
  if hostId ∈ db.hosts.ids then
    (db.runs.lastId + 1,
      { db with
        runs := db.runs.insertRow
          { botName := .ofCStr botName
            hostId := hostId
            startedAt := now
            status := .ofCStr (bytes "running") }
        runsWf := db.runsWf.insertRow _ })
  else (-1, db)

/-- `Store::finish_bot_run`. -/
def finishBotRun (now : Int64) (runId : Int) (status : Bytes) (exitCode durationMs : Int)
    (db : BotTables) : BotTables :=
  { db with
    runs := db.runs.updateRow runId fun r =>
      { r with
        finishedAt := some now
        status := .ofCStr status
        exitCode := some exitCode
        durationMs := some durationMs }
    runsWf := db.runsWf.updateRow _ _ }

/-- `Store::delete_bot_host`. -/
def deleteBotHost (hostId : Int) (db : BotTables) : BotTables where
  hosts := db.hosts.deleteWhere fun i _ => i = hostId
  runs := db.runs.deleteWhere fun _ r => r.hostId = hostId
  hostsWf := db.hostsWf.deleteWhere _
  runsWf := db.runsWf.deleteWhere _
  labels := db.labels.sublist (List.filter_sublist.map _)
  labelled := fun r hr => db.labelled r ((List.filter_sublist.map _).subset hr)

end Nazg.Nexus

/-!
## The history of the bots

`nazg bot history` lists runs, the newest first: those on a host, if one is named, and the
runs of a bot otherwise.
-/

namespace Nazg.Bot

open Lib Lib.Sqlite Nexus

structure HistoryOptions where
  botFilter : Bytes := []
  hostLabel : Bytes := []
  limit : Int := 20

/-- A run as it is listed. -/
structure HistoryLine where
  id : Int
  bot : Bytes
  host : Bytes
  status : Bytes
  exit : Int
  started : Int
  duration : Int
  deriving DecidableEq

inductive HistoryOutput where
  /-- `Usage: nazg bot history [--bot NAME] [--host LABEL] [--limit N]` -/
  | usage
  /-- `Invalid value for --limit` -/
  | invalidLimit
  /-- `Error: Database not initialized` -/
  | noDatabase
  /-- `Host '...' not found. Run 'nazg bot hosts' to view labels.` -/
  | hostNotFound (label : Bytes)
  /-- `No bot runs found for the specified criteria.` -/
  | noRuns
  | table (lines : List HistoryLine)
  deriving DecidableEq

def HistoryOutput.exitCode : HistoryOutput → Int
  | usage | noRuns | table _ => 0
  | invalidLimit | noDatabase | hostNotFound _ => 1

/-- The runs that a listing shows, if it comes to one. -/
def HistoryOutput.lines : HistoryOutput → Option (List HistoryLine)
  | noRuns => some []
  | table lines => some lines
  | _ => none

def isHelp (arg : Bytes) : Prop := arg = bytes "--help" ∨ arg = bytes "-h"

instance (arg : Bytes) : Decidable (isHelp arg) := inferInstanceAs (Decidable (_ ∨ _))

/-- The arguments after the name of the command; a run that ends with them is an error here. -/
def parseHistoryArgs (opts : HistoryOptions) : List Bytes → Except HistoryOutput HistoryOptions
  | [] => .ok opts
  | [arg] => if isHelp arg then .error .usage else .ok opts
  | arg :: value :: rest =>
      if arg = bytes "--bot" then parseHistoryArgs { opts with botFilter := value } rest
      else if arg = bytes "--host" then parseHistoryArgs { opts with hostLabel := value } rest
      else if arg = bytes "--limit" then
        match stoi value with
        | none => .error .invalidLimit
        | some limit =>
            parseHistoryArgs { opts with limit := if limit ≤ 0 then 20 else limit } rest
      else if isHelp arg then .error .usage
      else parseHistoryArgs opts (value :: rest)

/-- A line of the listing; the host comes from the row only if none was named. -/
def historyLine (effectiveHostLabel : Bytes) (run : RunMap) : HistoryLine where
  id := run.id
  bot := run.botName
  host := if effectiveHostLabel = [] then run.hostLabel.getD [] else effectiveHostLabel
  status := run.status
  exit := run.exitCode
  started := run.startedAt
  duration := run.durationMs

def listRuns (effectiveHostLabel : Bytes) (runs : List RunMap) : HistoryOutput :=
  if runs = [] then .noRuns else .table (runs.map (historyLine effectiveHostLabel))

/-- `cmd_bot_history`. -/
def cmdBotHistory (o : RowOrder) (args : List Bytes) (store : Option BotTables) : HistoryOutput :=
  match parseHistoryArgs {} args with
  | .error out => out
  | .ok opts =>
      match store with
      | none => .noDatabase
      | some db =>
          if opts.hostLabel = [] then
            let botFilter := if opts.botFilter = [] then bytes "doctor" else opts.botFilter
            listRuns [] (recentBotRuns o botFilter opts.limit.toNat db)
          else
            match getBotHostId opts.hostLabel db with
            | none => .hostNotFound opts.hostLabel
            | some hostId =>
                let runs := recentBotRunsForHost o hostId opts.limit.toNat db
                listRuns opts.hostLabel
                  (if opts.botFilter = [] ∨ opts.botFilter = bytes "all" then runs
                  else runs.filter fun run => run.botName = opts.botFilter)

end Nazg.Bot

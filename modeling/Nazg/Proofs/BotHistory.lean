import Nazg.Bot.History
import Nazg.Lib.FilteredLimit

/-!
# The history of one bot on one host

The store takes the limit and the command the bot. So the runs of the bot that are listed are those
among the last runs of the host, of whatever bot: the last runs of the bot are all there if
no other bot ran in between, or if the limit leaves room for everything since the first of
them.
-/

namespace Nazg.Bot

open Lib Lib.Sqlite Nexus
open Lib.Sqlite.RowOrder (IsFirst)

/-- `--host H --bot B --limit N`. -/
def historyArgs (host bot : Text) (limit : Nat) : List Bytes :=
  [bytes "--host", host.bytes, bytes "--bot", bot.bytes, bytes "--limit", decimal limit]

def runsOfBot (bot : Text) (hostId : Int) (db : BotTables) : List (Int × BotRunRow) :=
  (runsOn hostId db).filter fun x => x.2.botName = bot

/-- The lines are the last runs of the bot on the host, as many as asked for, the newest first. -/
def ListsNewest (host bot : Text) (hostId : Int) (limit : Nat) (db : BotTables)
    (out : HistoryOutput) : Prop :=
  ∃ found, IsFirst newest (runsOfBot bot hostId db) limit found ∧
    out.lines = some (found.map fun x => historyLine host.bytes (readRun x))

/-- Every run of another bot has as many runs of the host after it. -/
def OthersBehind (bot : Text) (hostId : Int) (limit : Nat) (db : BotTables) : Prop :=
  ∀ x ∈ runsOn hostId db, x.2.botName ≠ bot →
    limit ≤ (runsOn hostId db).countP fun y => x.2.startedAt.toInt < y.2.startedAt.toInt

/-- No run of the bot has more runs of the host since then, itself and those of the same second
included. -/
def WithinLimit (bot : Text) (hostId : Int) (limit : Nat) (db : BotTables) : Prop :=
  ∀ x ∈ runsOn hostId db, x.2.botName = bot →
    (runsOn hostId db).countP (fun y => x.2.startedAt.toInt ≤ y.2.startedAt.toInt) ≤ limit

/-- The names that ask for the runs of all bots. -/
def AsksForAll (bot : Text) : Prop := bot.bytes = [] ∨ bot.bytes = bytes "all"

instance (bot : Text) : Decidable (AsksForAll bot) := inferInstanceAs (Decidable (_ ∨ _))

/-! ## What the command lists -/

theorem parseHistoryArgs_historyArgs (host bot : Text) {limit : Nat} (hlimit : 1 ≤ limit) :
    parseHistoryArgs {} (historyArgs host bot limit) =
      if limit < 2 ^ 31 then .ok ⟨bot.bytes, host.bytes, limit⟩ else .error .invalidLimit := by
  have hhost : bytes "--host" ≠ bytes "--bot" := by decide
  have hl : bytes "--limit" ≠ bytes "--bot" := by decide
  have hl' : bytes "--limit" ≠ bytes "--host" := by decide
  simp only [historyArgs, parseHistoryArgs, if_neg hhost, if_neg hl, if_neg hl', if_true,
    stoi_decimal_natCast]
  by_cases hfits : limit < 2 ^ 31
  · simp only [if_pos hfits, if_neg (show ¬ (limit : Int) ≤ 0 by omega)]
  · simp only [if_neg hfits]

/-- The host is found by its label. -/
theorem getBotHostId_of_mem {db : BotTables} {hostId : Int} {host : BotHostRow}
    (h : (hostId, host) ∈ db.hosts.rows) : getBotHostId host.label.bytes db = some hostId := by
  obtain ⟨before, after, hrows⟩ := List.append_of_mem h
  have hother : ∀ x ∈ before, decide (x.2.label = host.label) = false := by
    intro x hx
    have hlabels := db.labels
    rw [Table.data, hrows, List.map_append, List.map_cons, List.pairwise_append] at hlabels
    exact decide_eq_false (hlabels.2.2 x.2 (List.mem_map_of_mem hx) host List.mem_cons_self)
  have hfound : (before ++ (hostId, host) :: after).find? (fun x => decide (x.2.label = host.label))
      = some (hostId, host) := by
    rw [List.find?_append, List.find?_eq_none.2 fun x hx => by simp [hother x hx]]
    simp
  rw [getBotHostId, Table.first, hrows, Text.ofCStr_self, hfound]
  rfl

/-- The rows that are kept of those the store hands over. -/
def keptRows (bot : Text) (rows : List (Int × BotRunRow)) : List (Int × BotRunRow) :=
  if AsksForAll bot then rows else rows.filter fun x => x.2.botName = bot

theorem filter_map_readRun (bot : Text) (rows : List (Int × BotRunRow)) :
    (if bot.bytes = [] ∨ bot.bytes = bytes "all" then rows.map readRun
      else (rows.map readRun).filter fun run => run.botName = bot.bytes) =
      (keptRows bot rows).map readRun := by
  by_cases hall : AsksForAll bot
  · rw [keptRows, if_pos hall]
    exact if_pos hall
  · rw [keptRows, if_neg hall]
    refine (if_neg hall).trans ?_
    rw [List.filter_map]
    refine congrArg (List.map readRun) (List.filter_congr fun x _ => ?_)
    exact decide_eq_decide.2 Text.ext_iff.symm

theorem lines_listRuns (label : Bytes) (rows : List (Int × BotRunRow)) :
    (listRuns label (rows.map readRun)).lines =
      some (rows.map fun x => historyLine label (readRun x)) := by
  cases rows with
  | nil => rfl
  | cons x rows =>
      rw [listRuns, if_neg (by simp)]
      simp [HistoryOutput.lines]

variable {db : BotTables} {hostId : Int} {host : BotHostRow}

/-- What the command shows of the rows that the store hands over. -/
theorem cmdBotHistory_historyArgs (h : (hostId, host) ∈ db.hosts.rows) (bot : Text) {limit : Nat}
    (hlimit : 1 ≤ limit) (o : RowOrder) :
    cmdBotHistory o (historyArgs host.label bot limit) (some db) =
      if limit < 2 ^ 31 then
        listRuns host.label.bytes
          ((keptRows bot ((o.orderBy newest (runsOn hostId db)).take limit)).map readRun)
      else .invalidLimit := by
  have hlabel : host.label.bytes ≠ [] := db.labelled host (List.mem_map_of_mem h)
  rw [cmdBotHistory, parseHistoryArgs_historyArgs _ _ hlimit]
  by_cases hfits : limit < 2 ^ 31
  · simp only [if_pos hfits, if_neg hlabel, getBotHostId_of_mem h]
    rw [Int.toNat_natCast, recentBotRunsForHost, filter_map_readRun]
  · simp only [if_neg hfits]

/-- Lines tell rows of one table apart, by the id. -/
theorem eq_of_map_historyLine (label : Bytes) {l l' : List (Int × BotRunRow)}
    (hl : l ⊆ db.runs.rows) (hl' : l' ⊆ db.runs.rows)
    (h : l.map (fun x => historyLine label (readRun x)) =
      l'.map fun x => historyLine label (readRun x)) : l = l' := by
  induction l generalizing l' with
  | nil => exact (List.map_eq_nil_iff.1 h.symm).symm
  | cons x l ih =>
      cases l' with
      | nil => cases h
      | cons y l' =>
          obtain ⟨hx, hl⟩ := List.cons_subset.1 hl
          obtain ⟨hy, hl'⟩ := List.cons_subset.1 hl'
          obtain ⟨hline, hrest⟩ := List.cons.inj h
          have hid : x.1 = y.1 := congrArg HistoryLine.id hline
          have hget := Table.get?_of_mem db.runsWf hx
          rw [hid, Table.get?_of_mem db.runsWf hy, Option.some_inj] at hget
          rw [Prod.ext hid hget.symm, ih hl hl' hrest]

theorem listsNewest_iff (h : (hostId, host) ∈ db.hosts.rows) (bot : Text) {limit : Nat}
    (hlimit : 1 ≤ limit) (o : RowOrder) :
    ListsNewest host.label bot hostId limit db
        (cmdBotHistory o (historyArgs host.label bot limit) (some db)) ↔
      limit < 2 ^ 31 ∧ IsFirst newest (runsOfBot bot hostId db) limit
        (keptRows bot ((o.orderBy newest (runsOn hostId db)).take limit)) := by
  have hon : ∀ x ∈ runsOn hostId db, x ∈ db.runs.rows := fun x hx => (List.mem_filter.1 hx).1
  have htake : ∀ x ∈ (o.orderBy newest (runsOn hostId db)).take limit, x ∈ db.runs.rows :=
    fun x hx => hon x ((o.orderBy_perm newest _).mem_iff.1 (List.mem_of_mem_take hx))
  have hkept : keptRows bot ((o.orderBy newest (runsOn hostId db)).take limit) ⊆ db.runs.rows := by
    intro x hx
    rw [keptRows] at hx
    split at hx
    · exact htake x hx
    · exact htake x (List.mem_filter.1 hx).1
  rw [ListsNewest, cmdBotHistory_historyArgs h bot hlimit o]
  by_cases hfits : limit < 2 ^ 31
  · rw [if_pos hfits, lines_listRuns]
    constructor
    · rintro ⟨found, hfirst, hlines⟩
      have hfound : found ⊆ db.runs.rows := fun x hx =>
        hon x (List.mem_filter.1 (hfirst.subset hx)).1
      rw [eq_of_map_historyLine _ hkept hfound (Option.some_inj.1 hlines)]
      exact ⟨hfits, hfirst⟩
    · intro hfirst
      exact ⟨_, hfirst.2, rfl⟩
  · rw [if_neg hfits]
    constructor
    · rintro ⟨found, -, hlines⟩
      cases hlines
    · intro hfirst
      exact absurd hfirst.1 hfits

/-! ## When they are the last runs of the bot -/

theorem othersBehind_iff (bot : Text) (limit : Nat) :
    OthersBehind bot hostId limit db ↔
      ∀ x ∈ runsOn hostId db, decide (x.2.botName = bot) = false →
        limit ≤ (runsOn hostId db).countP fun y => newest y < newest x := by
  simp only [OthersBehind, newest, Int.neg_lt_neg_iff, decide_eq_false_iff_not, ne_eq]

theorem withinLimit_iff (bot : Text) (limit : Nat) :
    WithinLimit bot hostId limit db ↔
      ∀ x ∈ runsOn hostId db, decide (x.2.botName = bot) = true →
        (runsOn hostId db).countP (fun y => newest y ≤ newest x) ≤ limit := by
  simp only [WithinLimit, newest, Int.neg_le_neg_iff, decide_eq_true_eq]

theorem nodup_runsOn : (runsOn hostId db).Nodup := by
  have hids : (db.runs.rows.map Prod.fst).Nodup := db.runsWf.increasing.imp ne_of_lt
  exact (List.Nodup.of_map _ hids).filter _

/-- The history of a bot on a host lists the last runs of the bot there, in whatever order
those of one second are found, exactly if the limit is a number that the command takes and cuts
off no run of the bot after which another bot ran. -/
theorem bot_history_iff (h : (hostId, host) ∈ db.hosts.rows) (bot : Text) {limit : Nat}
    (hlimit : 1 ≤ limit) :
    (∀ o, ListsNewest host.label bot hostId limit db
        (cmdBotHistory o (historyArgs host.label bot limit) (some db))) ↔
      limit < 2 ^ 31 ∧ (OthersBehind bot hostId limit db ∨
        ¬ AsksForAll bot ∧ WithinLimit bot hostId limit db) := by
  simp only [listsNewest_iff h bot hlimit, forall_and, forall_const, othersBehind_iff,
    withinLimit_iff]
  refine and_congr_right fun _ => ?_
  by_cases hall : AsksForAll bot
  · simp only [keptRows, hall, if_true, not_true, false_and, or_false]
    exact RowOrder.forall_isFirst_take_iff newest _ limit nodup_runsOn
  · simp only [keptRows, hall, if_false, not_false_eq_true, true_and]
    exact RowOrder.forall_isFirst_filter_iff newest _ limit nodup_runsOn

/-! ## Two bots on one host -/

/-- The doctor has run, and after it the git doctor. -/
def twoBots : BotTables where
  hosts := ⟨[(1, ⟨.ofCStr (bytes "lab-box")⟩)], 1⟩
  runs :=
    ⟨[(1, ⟨.ofCStr (bytes "doctor"), 1, 100, some 101, .ofCStr (bytes "success"), some 0, some 900⟩),
      (2, ⟨.ofCStr (bytes "git-doctor"), 1, 200, some 201, .ofCStr (bytes "success"), some 0,
        some 900⟩)], 2⟩
  hostsWf := ⟨by decide, by decide, by decide, by decide⟩
  runsWf := ⟨by decide, by decide, by decide, by decide⟩
  labels := by decide
  labelled := by decide

theorem mem_twoBots :
    ((1 : Int), (⟨.ofCStr (bytes "lab-box")⟩ : BotHostRow)) ∈ twoBots.hosts.rows := by
  decide

theorem bot_history_iff_two :
    ((1 : Int), (⟨.ofCStr (bytes "lab-box")⟩ : BotHostRow)) ∈ twoBots.hosts.rows ∧
      ∀ o, ListsNewest (.ofCStr (bytes "lab-box")) (.ofCStr (bytes "doctor")) 1 2 twoBots
        (cmdBotHistory o (historyArgs (.ofCStr (bytes "lab-box")) (.ofCStr (bytes "doctor")) 2)
          (some twoBots)) :=
  ⟨mem_twoBots,
    (bot_history_iff mem_twoBots (.ofCStr (bytes "doctor")) (by decide)).2
      ⟨by decide, .inr ⟨by decide, by unfold WithinLimit; decide⟩⟩⟩

/-- The last run on the host takes the one place there is, and is not the doctor's. -/
theorem doctor_not_listed :
    ∃ o, cmdBotHistory o
        (historyArgs (.ofCStr (bytes "lab-box")) (.ofCStr (bytes "doctor")) 1) (some twoBots) =
          .noRuns ∧
      ¬ ListsNewest (.ofCStr (bytes "lab-box")) (.ofCStr (bytes "doctor")) 1 1 twoBots .noRuns := by
  have hleads : RowOrder.Leads newest 1 (runsOn 1 twoBots).reverse := by
    have hrows : (runsOn 1 twoBots).reverse = twoBots.runs.rows.reverse := by decide
    rw [hrows]
    exact ⟨by decide, trivial⟩
  have hlast := (RowOrder.take_orderBy_iff newest nodup_runsOn 1).2 hleads .byId
  have hnothing : keptRows (.ofCStr (bytes "doctor")) ((runsOn 1 twoBots).reverse.take 1) = [] := by
    decide
  refine ⟨.byId, ?_, ?_⟩
  · refine (cmdBotHistory_historyArgs mem_twoBots _ (by decide) .byId).trans ?_
    rw [hlast, hnothing]
    rfl
  · rintro ⟨found, hfirst, hlines⟩
    have hlength := hfirst.length_eq
    have hnone : found.length = 0 := by simpa [HistoryOutput.lines] using hlines
    rw [hnone] at hlength
    exact absurd hlength (by decide)

end Nazg.Bot

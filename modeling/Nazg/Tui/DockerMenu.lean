import Nazg.Lib.Decimal
import Nazg.Tui.KeyManager

/-!
# The docker dashboard

The menu lists servers and the containers of the selected one, and keeps an index into each of
its lists. What the store and docker answer is part of a call. The menu of the program has no
orchestrator, and images, volumes and networks are not read yet, so those lists are empty.

The vectors are indexed without a check in some places; a flag is raised where that reads
outside of one.
-/

namespace Nazg.Tui

open Lib

structure ServerInfo where
  id : Int
  label : Bytes

structure HelloWorldResult where
  success : Bool
  exitCode : Int
  output : Bytes
  error : Bytes

/-- What the store and docker answer. Rows are read up to an exception, which says something. -/
structure DockerAnswers where
  servers : List ServerInfo × Option Bytes
  /-- The names of the containers of a server. -/
  containers : Int → List Bytes × Option Bytes
  helloWorld : Int → HelloWorldResult

namespace DockerMenu

inductive Tab where
  | containers
  | images
  | volumes
  | networks
  | stacks
  deriving DecidableEq

def Tab.order : List Tab := [.containers, .images, .volumes, .networks, .stacks]

/-- `static_cast<int>(tab)`. -/
def Tab.index (tab : Tab) : Nat := order.idxOf tab

/-- `static_cast<Tab>(i)`, for the number of a tab. -/
def Tab.ofIndex (i : Int) : Tab := order.getD i.toNat .containers

def Tab.label : Tab → Bytes
  | .containers => bytes "Containers"
  | .images => bytes "Images"
  | .volumes => bytes "Volumes"
  | .networks => bytes "Networks"
  | .stacks => bytes "Stacks"

end DockerMenu

structure DockerMenu where
  servers : List ServerInfo := []
  containers : List Bytes := []
  activeKeyBindings : List KeyBinding := []
  keyBindingsActive : Bool := false
  selectedServerIndex : Int := 0
  selectedContainerIndex : Int := 0
  selectedStackIndex : Int := 0
  selectedImageIndex : Int := 0
  selectedVolumeIndex : Int := 0
  selectedNetworkIndex : Int := 0
  currentServerId : Int := 0
  currentTab : DockerMenu.Tab := .containers
  containerFilter : Bytes := []
  showStoppedContainers : Bool := true
  errorMessage : Bytes := []
  statusMessage : Bytes := []
  /-- The status message of the context. -/
  shown : Bytes := []
  outOfBounds : Bool := false

namespace DockerMenu

/-- `v[i]` of a vector, if that is inside. -/
def getAt {α : Type*} (v : List α) (i : Int) : Option α := if i < 0 then none else v[i.toNat]?

/-! ## Messages -/

def setStatus (message : Bytes) (d : DockerMenu) : DockerMenu :=
  { d with
    statusMessage := message
    errorMessage := if message ≠ [] then [] else d.errorMessage
    shown := message }

def setError (message : Bytes) (d : DockerMenu) : DockerMenu :=
  { d with errorMessage := message, statusMessage := [], shown := message }

/-- An exception is shown after what was read before it. -/
def failed (what : Bytes) (error : Option Bytes) (d : DockerMenu) : DockerMenu :=
  match error with
  | none => d
  | some e => d.setError (what ++ e)

/-- `first_line`. -/
def firstLine (text : Bytes) : Bytes :=
  let line := text.takeWhile fun c => c ≠ 13 && c ≠ 10
  if line.length > 120 then line.take 117 ++ bytes "..." else line

/-! ## Reading -/

def loadServers (answers : DockerAnswers) (d : DockerMenu) : DockerMenu :=
  failed (bytes "Failed to load servers: ") answers.servers.2
    { d with servers := answers.servers.1, errorMessage := [] }

def loadContainers (answers : DockerAnswers) (serverId : Int) (d : DockerMenu) : DockerMenu :=
  failed (bytes "Failed to load containers: ") (answers.containers serverId).2
    { d with containers := (answers.containers serverId).1, errorMessage := [] }

def onServerSelected (answers : DockerAnswers) (index : Int) (d : DockerMenu) : DockerMenu :=
  match getAt d.servers index with
  | none => d
  | some server =>
      let d := loadContainers answers server.id
        { d with selectedServerIndex := index, currentServerId := server.id }
      let d := { d with
        selectedContainerIndex := 0
        selectedStackIndex := 0
        selectedImageIndex := 0
        selectedVolumeIndex := 0
        selectedNetworkIndex := 0 }
      if d.errorMessage = [] then d.setStatus (bytes "Server: " ++ server.label) else d

/-- The server that was selected, or the first one if that is not there. -/
def selectServer (answers : DockerAnswers) (d : DockerMenu) : DockerMenu :=
  d.onServerSelected answers
    (if d.selectedServerIndex < 0 ∨ d.selectedServerIndex ≥ d.servers.length then 0
     else d.selectedServerIndex)

def noServers : Bytes := bytes "No Docker servers configured"

/-- `on_load`, without the commands and the keys. -/
def onLoad (answers : DockerAnswers) (d : DockerMenu) : DockerMenu :=
  let d := d.loadServers answers
  if d.servers ≠ [] then d.selectServer answers
  else if d.errorMessage = [] then d.setError noServers
  else d

def onRefresh (answers : DockerAnswers) (d : DockerMenu) : DockerMenu :=
  let d := d.loadServers answers
  if d.servers ≠ [] then d.selectServer answers
  else
    let d := { d with currentServerId := 0 }
    if d.errorMessage = [] then d.setError noServers else d

def refreshed : Bytes := bytes "Refreshed docker data"

/-- `on_resume`, without the keys. -/
def onResume (answers : DockerAnswers) (d : DockerMenu) : DockerMenu :=
  let d := d.onRefresh answers
  if d.errorMessage = [] then d.setStatus refreshed else d

/-- What stays of a dashboard when its lists are read. -/
structure Reread (d d' : DockerMenu) : Prop where
  bindings : d'.activeKeyBindings = d.activeKeyBindings
  active : d'.keyBindingsActive = d.keyBindingsActive
  tab : d'.currentTab = d.currentTab
  filter : d'.containerFilter = d.containerFilter
  stopped : d'.showStoppedContainers = d.showStoppedContainers

theorem Reread.trans {d d' d'' : DockerMenu} (h : Reread d d') (h' : Reread d' d'') :
    Reread d d'' :=
  ⟨h'.bindings.trans h.bindings, h'.active.trans h.active, h'.tab.trans h.tab,
    h'.filter.trans h.filter, h'.stopped.trans h.stopped⟩

theorem reread_failed (what : Bytes) (error : Option Bytes) (d : DockerMenu) :
    Reread d (failed what error d) := by
  cases error with
  | none => exact ⟨rfl, rfl, rfl, rfl, rfl⟩
  | some e => exact ⟨rfl, rfl, rfl, rfl, rfl⟩

theorem reread_loadServers (answers : DockerAnswers) (d : DockerMenu) :
    Reread d (d.loadServers answers) := by
  have hservers : Reread d { d with servers := answers.servers.1, errorMessage := [] } :=
    ⟨rfl, rfl, rfl, rfl, rfl⟩
  exact hservers.trans (reread_failed _ _ _)

theorem reread_loadContainers (answers : DockerAnswers) (serverId : Int) (d : DockerMenu) :
    Reread d (loadContainers answers serverId d) := by
  have hcontainers : Reread d
      { d with containers := (answers.containers serverId).1, errorMessage := [] } :=
    ⟨rfl, rfl, rfl, rfl, rfl⟩
  exact hcontainers.trans (reread_failed _ _ _)

theorem reread_onServerSelected (answers : DockerAnswers) (index : Int) (d : DockerMenu) :
    Reread d (d.onServerSelected answers index) := by
  rw [onServerSelected]
  split
  · exact ⟨rfl, rfl, rfl, rfl, rfl⟩
  · next server _ =>
      have hloaded := reread_loadContainers answers server.id
        { d with selectedServerIndex := index, currentServerId := server.id }
      dsimp only
      split
      · exact { hloaded with }
      · exact { hloaded with }

theorem reread_onRefresh (answers : DockerAnswers) (d : DockerMenu) :
    Reread d (d.onRefresh answers) := by
  have hloaded := reread_loadServers answers d
  rw [onRefresh]
  dsimp only
  split
  · exact hloaded.trans (reread_onServerSelected answers _ _)
  · split
    · exact { hloaded with }
    · exact { hloaded with }

theorem reread_onLoad (answers : DockerAnswers) (d : DockerMenu) :
    Reread d (d.onLoad answers) := by
  have hloaded := reread_loadServers answers d
  rw [onLoad]
  split
  · exact hloaded.trans (reread_onServerSelected answers _ _)
  · split
    · exact { hloaded with }
    · exact hloaded

theorem reread_onResume (answers : DockerAnswers) (d : DockerMenu) :
    Reread d (d.onResume answers) := by
  have hrefreshed := reread_onRefresh answers d
  rw [onResume]
  split
  · exact { hrefreshed with }
  · exact hrefreshed

/-! ## Tabs, containers and keys -/

def switchTab (tab : Tab) (d : DockerMenu) : DockerMenu :=
  if d.currentTab = tab then d else { d with currentTab := tab, errorMessage := [] }

def showTab (tab : Tab) (d : DockerMenu) : DockerMenu :=
  (d.switchTab tab).setStatus (bytes "Tab: " ++ tab.label)

def cycleTab (direction : Int) (d : DockerMenu) : DockerMenu :=
  let index := (d.currentTab.index + direction).tmod Tab.order.length
  let index := if index < 0 then index + Tab.order.length else index
  d.showTab (.ofIndex index)

/-- What is done to the selected container, which is no more than a message yet. -/
def onContainer (what : Bytes) (d : DockerMenu) : DockerMenu :=
  if d.selectedContainerIndex ≥ d.containers.length then d
  else
    match getAt d.containers d.selectedContainerIndex with
    | none => { d with outOfBounds := true }
    | some name => d.setStatus (what ++ name)

def onStartContainer : DockerMenu → DockerMenu := onContainer (bytes "Starting container: ")
def onStopContainer : DockerMenu → DockerMenu := onContainer (bytes "Stopping container: ")
def onRestartContainer : DockerMenu → DockerMenu := onContainer (bytes "Restarting container: ")
def onViewLogs : DockerMenu → DockerMenu := onContainer (bytes "Log viewer coming soon for: ")

def onRunHelloWorld (answers : DockerAnswers) (d : DockerMenu) : Bool × DockerMenu :=
  match getAt d.servers d.selectedServerIndex with
  | none => (false, d.setError (bytes "No server selected"))
  | some server =>
      let result := answers.helloWorld server.id
      if result.success then
        let line := firstLine result.output
        let line := if line = [] then bytes "hello-world completed" else line
        (true, d.setStatus (bytes "hello-world on " ++ server.label ++ bytes ": " ++ line))
      else
        let line := firstLine result.error
        let line :=
          if line = [] then bytes "hello-world failed with exit code " ++ decimal result.exitCode
          else line
        (false, d.setError (bytes "hello-world on " ++ server.label ++ bytes " failed: " ++ line))

inductive Command where
  | tabNext
  | tabPrev
  | showTab (tab : Tab)
  | refresh
  | containerStart
  | containerStop
  | containerRestart
  | containerLogs
  | runHelloWorld

/-- What the handler of a command does with the menu. -/
def run (answers : DockerAnswers) (d : DockerMenu) : Command → Bool × DockerMenu
  | .tabNext => (true, d.cycleTab 1)
  | .tabPrev => (true, d.cycleTab (-1))
  | .showTab tab => (true, d.showTab tab)
  | .refresh => (true, (d.onRefresh answers).setStatus refreshed)
  | .containerStart => (true, d.onStartContainer)
  | .containerStop => (true, d.onStopContainer)
  | .containerRestart => (true, d.onRestartContainer)
  | .containerLogs => (true, d.onViewLogs)
  | .runHelloWorld => d.onRunHelloWorld answers

/-- The index of the tab, in a list of some size, is moved. -/
def moveIndex (f : Int → Int → Int) (d : DockerMenu) : DockerMenu :=
  match d.currentTab with
  | .containers => { d with selectedContainerIndex := f d.containers.length d.selectedContainerIndex }
  | .images => { d with selectedImageIndex := f 0 d.selectedImageIndex }
  | .volumes => { d with selectedVolumeIndex := f 0 d.selectedVolumeIndex }
  | .networks => { d with selectedNetworkIndex := f 0 d.selectedNetworkIndex }
  | .stacks => { d with selectedStackIndex := f 0 d.selectedStackIndex }

/-- The handler of the menu's component: whether it took the event. -/
def handleEvent (answers : DockerAnswers) (event : Event) (d : DockerMenu) : Bool × DockerMenu :=
  match event with
  | .key .arrowLeft =>
      if d.selectedServerIndex > 0 then
        (true, d.onServerSelected answers (d.selectedServerIndex - 1))
      else (false, d)
  | .key .arrowRight =>
      if d.selectedServerIndex < (d.servers.length : Int) - 1 then
        (true, d.onServerSelected answers (d.selectedServerIndex + 1))
      else (false, d)
  | .key .arrowUp => (true, d.moveIndex fun _ i => if 0 < i then i - 1 else i)
  | .key .arrowDown => (true, d.moveIndex fun size i => if i < size - 1 then i + 1 else i)
  | _ => (false, d)

/-! ## Saving and restoring -/

/-- The numbers that are saved, and their keys. -/
def savedNumbers (d : DockerMenu) : List (Bytes × Int) :=
  [(bytes "selected_server_index", d.selectedServerIndex),
    (bytes "selected_container_index", d.selectedContainerIndex),
    (bytes "selected_stack_index", d.selectedStackIndex),
    (bytes "selected_image_index", d.selectedImageIndex),
    (bytes "selected_volume_index", d.selectedVolumeIndex),
    (bytes "selected_network_index", d.selectedNetworkIndex),
    (bytes "current_server_id", d.currentServerId),
    (bytes "current_tab", d.currentTab.index)]

def saveState (d : DockerMenu) : OrdMap Bytes Bytes :=
  let numbers := d.savedNumbers.foldl (fun m e => m.insert e.1 (decimal e.2)) OrdMap.empty
  (numbers.insert (bytes "container_filter") d.containerFilter).insert (bytes "show_stopped")
    (if d.showStoppedContainers then bytes "1" else bytes "0")

/-- A field that is restored if its key is there; nothing if its text is no number. -/
def restoreWith {α : Type*} (read : Bytes → Option α) (set : α → DockerMenu → DockerMenu)
    (key : Bytes) (state : OrdMap Bytes Bytes) (d : DockerMenu) : Option DockerMenu :=
  match state.find? key with
  | none => some d
  | some text => (read text).map fun value => set value d

/-- `restore_state`; nothing where `stoi` or `stoll` throws. -/
def restoreState (state : OrdMap Bytes Bytes) (d : DockerMenu) : Option DockerMenu := do
  let d ← restoreWith stoi (fun i d => { d with selectedServerIndex := i })
    (bytes "selected_server_index") state d
  let d ← restoreWith stoi (fun i d => { d with selectedContainerIndex := i })
    (bytes "selected_container_index") state d
  let d ← restoreWith stoi (fun i d => { d with selectedStackIndex := i })
    (bytes "selected_stack_index") state d
  let d ← restoreWith stoi (fun i d => { d with selectedImageIndex := i })
    (bytes "selected_image_index") state d
  let d ← restoreWith stoi (fun i d => { d with selectedVolumeIndex := i })
    (bytes "selected_volume_index") state d
  let d ← restoreWith stoi (fun i d => { d with selectedNetworkIndex := i })
    (bytes "selected_network_index") state d
  let d ← restoreWith stoll (fun i d => { d with currentServerId := i })
    (bytes "current_server_id") state d
  let d ← restoreWith stoi (fun i d => { d with currentTab := .ofIndex i })
    (bytes "current_tab") state d
  let d ← restoreWith some (fun s d => { d with containerFilter := s })
    (bytes "container_filter") state d
  restoreWith some (fun s d => { d with showStoppedContainers := s = bytes "1" })
    (bytes "show_stopped") state d

/-! ## The keys of the menu -/

def keyBinding (key command : String) : KeyBinding :=
  ⟨bytes key, bytes command, .normal, false⟩

/-- What `register_key_bindings` binds. -/
def keyBindings : List KeyBinding :=
  [keyBinding "Tab" "docker-tab-next",
    keyBinding "Shift-Tab" "docker-tab-prev",
    keyBinding "1" "docker-tab-containers",
    keyBinding "2" "docker-tab-images",
    keyBinding "3" "docker-tab-volumes",
    keyBinding "4" "docker-tab-networks",
    keyBinding "5" "docker-tab-stacks",
    keyBinding "R" "docker-refresh",
    keyBinding "s" "docker-container-start",
    keyBinding "S" "docker-container-stop",
    keyBinding "r" "docker-container-restart",
    keyBinding "l" "docker-container-logs",
    keyBinding "h" "docker-run-hello-world"]

/-- `unregister_key_bindings`, on the keys of the context. -/
def unregisterKeyBindings (d : DockerMenu) (keys : KeyManager) : DockerMenu × KeyManager :=
  ({ d with activeKeyBindings := [], keyBindingsActive := false },
    keys.unbindAll d.activeKeyBindings)

def registerKeyBindings (d : DockerMenu) (keys : KeyManager) : DockerMenu × KeyManager :=
  let r := if d.keyBindingsActive then d.unregisterKeyBindings keys else (d, keys)
  ({ r.1 with activeKeyBindings := keyBindings, keyBindingsActive := true },
    r.2.bindAll keyBindings)

/-- What `register_commands` registers. -/
def commands : List (Bytes × Command) :=
  [(bytes "docker-tab-next", .tabNext),
    (bytes "docker-tab-prev", .tabPrev),
    (bytes "docker-tab-containers", .showTab .containers),
    (bytes "docker-tab-images", .showTab .images),
    (bytes "docker-tab-volumes", .showTab .volumes),
    (bytes "docker-tab-networks", .showTab .networks),
    (bytes "docker-tab-stacks", .showTab .stacks),
    (bytes "docker-refresh", .refresh),
    (bytes "docker-container-start", .containerStart),
    (bytes "docker-container-stop", .containerStop),
    (bytes "docker-container-restart", .containerRestart),
    (bytes "docker-container-logs", .containerLogs),
    (bytes "docker-run-hello-world", .runHelloWorld)]

end DockerMenu

end Nazg.Tui

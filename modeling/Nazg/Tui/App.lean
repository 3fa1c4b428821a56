import Nazg.Tui.DockerMenu
import Nazg.Tui.MenuManager
import Nazg.Tui.TuiContext
import Nazg.Tui.Window

/-!
# The terminal UI

The application holds the managers of the modes, keys, commands, menus and windows, and takes
one event after the other. An event goes to the command bar while that is open, opens the
prefix, is held back if it is an Escape, or is handled by the mode: after the prefix key and in
NORMAL mode as the name of a command, in INSERT mode as bytes for the shell.

The menus and the windows are known to their managers by serial numbers, under which their
contents are kept here. What the clock, the system and docker answer comes with an event.
-/

namespace Nazg.Tui

open Lib

inductive Screen where
  | main (selectedIndex : Int)
  | docker (d : DockerMenu)

namespace Screen

/-- What the factory of a menu makes. -/
def made (menuId : Bytes) : Screen := if menuId = bytes "docker" then .docker {} else .main 0

def saveState : Screen → OrdMap Bytes Bytes
  | .main _ => .empty
  | .docker d => d.saveState

end Screen

structure CommandBar where
  active : Bool := false
  buffer : Bytes := []

inductive Command where
  | newWindow
  | killWindow
  | nextWindow
  | previousWindow
  | lastWindow
  | renameWindow
  | split (direction : SplitDirection) (done : Bytes)
  | killPane
  | saveLayout
  | restoreLayout
  | toggleZoom
  | navigate (direction : Char) (done : Bytes)
  | enterInsertMode
  | enterNormalMode
  | enterVisualMode
  | enterCommandMode
  | quit
  | help
  | load
  | back
  | forward
  | menus
  | home
  | docker (c : DockerMenu.Command)

/-- What `initialize` registers. -/
def Command.builtins : List (Bytes × Command) :=
  [(bytes "new-window", .newWindow),
    (bytes "kill-window", .killWindow),
    (bytes "next-window", .nextWindow),
    (bytes "previous-window", .previousWindow),
    (bytes "last-window", .lastWindow),
    (bytes "rename-window", .renameWindow),
    (bytes "split-vertical", .split .horizontal (bytes "Split vertical")),
    (bytes "split-horizontal", .split .vertical (bytes "Split horizontal")),
    (bytes "kill-pane", .killPane),
    (bytes "save-layout", .saveLayout),
    (bytes "restore-layout", .restoreLayout),
    (bytes "toggle-zoom", .toggleZoom),
    (bytes "navigate-left", .navigate 'h' (bytes "Navigate: left")),
    (bytes "navigate-right", .navigate 'l' (bytes "Navigate: right")),
    (bytes "navigate-up", .navigate 'k' (bytes "Navigate: up")),
    (bytes "navigate-down", .navigate 'j' (bytes "Navigate: down")),
    (bytes "enter-insert-mode", .enterInsertMode),
    (bytes "enter-normal-mode", .enterNormalMode),
    (bytes "enter-visual-mode", .enterVisualMode),
    (bytes "enter-command-mode", .enterCommandMode),
    (bytes "command-mode", .enterCommandMode),
    (bytes "copy-mode", .enterVisualMode),
    (bytes "quit", .quit),
    (bytes "q", .quit),
    (bytes "help", .help),
    (bytes "load", .load),
    (bytes "back", .back),
    (bytes "forward", .forward),
    (bytes "menus", .menus),
    (bytes "home", .home)]

/-- One `register_command` after the other. -/
def registerAll (entries : List (Bytes × Command)) (commands : OrdMap Bytes Command) :
    OrdMap Bytes Command :=
  entries.foldl (fun commands e => commands.insert e.1 e.2) commands

/-- What an event finds: the steady clock, whether the terminals that it asks for can be made,
and what the store and docker answer. -/
structure Surroundings where
  now : Int
  spawns : Bool
  docker : DockerAnswers

structure TuiApp where
  menus : MenuManager
  /-- The menus by their serial numbers. -/
  screens : Nat → Screen := fun _ => .main 0
  modes : ModeManager := {}
  keys : KeyManager := .create
  commands : OrdMap Bytes Command := registerAll Command.builtins .empty
  /-- `commands_registered_` of the docker menu. -/
  dockerRegistered : Bool := false
  bar : CommandBar := {}
  windows : TuiContext := {}
  /-- The windows by their serial numbers. -/
  contents : Nat → Window := fun _ => .initial
  sawEscape : Bool := false
  quit : Bool := false
  status : Bytes := []
  /-- What was written, by window and pane. -/
  sent : List (Nat × Nat × Bytes) := []
  /-- What was handed to the reaper, by window and pane. -/
  reaped : List (Nat × Nat) := []

namespace TuiApp

/-- The application before the first event. The menus are registered if there is a store. -/
def initial (store : Bool) : TuiApp :=
  { menus :=
      { factories := if store then [bytes "docker", bytes "main"] else []
        context := some {} } }

def setStatusMessage (message : Bytes) (a : TuiApp) : TuiApp := { a with status := message }

/-! ## Menus -/

def setScreen (serial : Nat) (screen : Screen) (a : TuiApp) : TuiApp :=
  { a with screens := fun k => if k = serial then screen else a.screens k }

/-- Something is done with a docker menu, which shows its messages. -/
def onDocker {α : Type} (serial : Nat) (d : DockerMenu) (f : DockerMenu → α × DockerMenu)
    (a : TuiApp) : α × TuiApp :=
  let r := f { d with shown := a.status }
  (r.1, (a.setScreen serial (.docker r.2)).setStatusMessage r.2.shown)

/-- `DockerMenu::register_commands`, which does it once for all menus. -/
def registerDockerCommands (a : TuiApp) : TuiApp :=
  if a.dockerRegistered then a
  else
    { a with
      commands := registerAll (DockerMenu.commands.map fun e => (e.1, .docker e.2)) a.commands
      dockerRegistered := true }

/-- `DockerMenu::register_key_bindings` and what is done after it. -/
def activateDocker (serial : Nat) (d : DockerMenu) (f : DockerMenu → DockerMenu) (a : TuiApp) :
    TuiApp :=
  let r := d.registerKeyBindings a.keys
  (onDocker serial r.1 (fun d => ((), f d)) { a with keys := r.2 }).2

/-- What a call on a menu does. -/
def callMenu (answers : DockerAnswers) (menuId : Bytes) (a : TuiApp) (entry : Nat × MenuCall) :
    TuiApp :=
  match entry.2, a.screens entry.1 with
  | .build, _ => a.setScreen entry.1 (.made menuId)
  | .onLoad, .docker d =>
      activateDocker entry.1 d (fun d => d.onLoad answers) a.registerDockerCommands
  | .onUnload, .docker d =>
      let r := d.unregisterKeyBindings a.keys
      { a.setScreen entry.1 (.docker r.1) with keys := r.2 }
  | .onResume, .docker d => activateDocker entry.1 d (fun d => d.onResume answers) a
  | .restoreState, .docker d =>
      match a.menus.stack with
      | [] => a
      | top :: _ => a.setScreen entry.1 (.docker ((d.restoreState top.savedState).getD d))
  | _, _ => a

/-- The menu manager has the modes of the context, and the state of the current menu. -/
def readyMenus (a : TuiApp) : MenuManager :=
  { a.menus with
    context := some a.modes
    stack :=
      match a.menus.stack with
      | [] => []
      | top :: below =>
          { top with menu.state := (a.screens top.menu.serial).saveState } :: below }

/-- The menu manager is called, and its calls on the menus are done in their order. -/
def callMenus (answers : DockerAnswers) (menuId : Bytes) (c : MenuManager.Call) (a : TuiApp) :
    Bool × TuiApp :=
  let r := a.readyMenus.perform c
  (r.1,
    (r.2.log.drop a.menus.log.length).foldl (callMenu answers menuId)
      { a with menus := r.2, modes := r.2.context.getD a.modes })

/-- What the factory of a menu makes: both kinds of menus preserve their state. -/
def made (menuId : Bytes) : Made := some (true, (Screen.made menuId).saveState)

/-! ## Windows -/

def setContents (serial : Nat) (w : Window) (a : TuiApp) : TuiApp :=
  { a with contents := fun k => if k = serial then w else a.contents k }

/-- Something is done with the active window, if there is one. -/
def onWindow (f : Window → Bool × Window) (a : TuiApp) : Option Bool × TuiApp :=
  match a.windows.activeWindow with
  | none => (none, a)
  | some window =>
      let r := f (a.contents window.serial)
      (some r.1, a.setContents window.serial r.2)

/-- Panes of the active window are handed to the reaper. -/
def handOver (panes : Window → List Nat) (a : TuiApp) : TuiApp :=
  match a.windows.activeWindow with
  | none => a
  | some window =>
      { a with
        reaped := a.reaped ++ (panes (a.contents window.serial)).map fun pane =>
          (window.serial, pane) }

/-- The message of a command by what it did; an exception shows none. -/
def report (done failed : Bytes) (r : Option Bool × TuiApp) : Bool × TuiApp :=
  match r with
  | (none, a) => (false, a.setStatusMessage (bytes "No active window"))
  | (some true, a) => (true, a.setStatusMessage done)
  | (some false, a) => (false, a.setStatusMessage failed)

/-- `Window::send_input`: to the active pane, if the window owns it. -/
def sendInput (data : Bytes) (a : TuiApp) : TuiApp :=
  match a.windows.activeWindow with
  | none => a
  | some window =>
      match (a.contents window.serial).activePane with
      | none => a
      | some pane =>
          if pane ∈ (a.contents window.serial).panes then
            { a with sent := a.sent ++ [(window.serial, pane, data)] }
          else a

/-! ## Commands -/

/-- A command of the window list. -/
def onWindows (done failed : Bytes) (f : TuiContext → Bool × TuiContext) (a : TuiApp) :
    Bool × TuiApp :=
  let r := f a.windows
  (r.1, { a with windows := r.2 }.setStatusMessage (if r.1 then done else failed))

def runNewWindow (s : Surroundings) (a : TuiApp) : Bool × TuiApp :=
  if s.spawns then
    (true,
      ({ a with windows := a.windows.createWindow }.setContents a.windows.created
        .initial).setStatusMessage
          (bytes "Created window: " ++ TuiContext.windowName a.windows.windows.length))
  else (false, a)

def runRenameWindow (args : List Bytes) (a : TuiApp) : Bool × TuiApp :=
  let r := a.windows.renameWindow args
  let message :=
    match a.windows.activeWindow, args with
    | none, _ => bytes "No active window"
    | some _, [] => bytes "Usage: rename-window <name>"
    | some _, name :: _ => bytes "Renamed window to: " ++ name
  (r.1, { a with windows := r.2 }.setStatusMessage message)

/-- The contents of the active window. -/
def activeContents (a : TuiApp) : Option Window :=
  a.windows.activeWindow.map fun window => a.contents window.serial

/-- Where no terminal can be made for the new pane, the window is still not zoomed any more. -/
def runSplit (s : Surroundings) (direction : SplitDirection) (done : Bytes) (a : TuiApp) :
    Bool × TuiApp :=
  if s.spawns = false ∧ (a.activeContents.bind Window.activePane).isSome then
    (false, (a.onWindow fun w => (false, if w.zoomed then w.unzoom else w)).2)
  else
    report done (bytes "Split failed")
      (a.onWindow fun w => ((w.splitActive direction).1.isSome, (w.splitActive direction).2))

/-- The number of panes that are made to restore a layout. -/
def savedPanes (w : Window) : Nat :=
  match w.savedLayout with
  | none => 0
  | some saved => saved.snapshot.leafCount

def runRestoreLayout (s : Surroundings) (a : TuiApp) : Bool × TuiApp :=
  if s.spawns = false ∧ (a.activeContents.map savedPanes).getD 0 ≠ 0 then (false, a)
  else
    report (bytes "Layout restored") (bytes "No saved layout")
      ((a.handOver Window.replacedPanes).onWindow Window.restoreLayout)

def runToggleZoom (a : TuiApp) : Bool × TuiApp :=
  let zoomed := (a.activeContents.map fun w => w.toggleZoom.2.zoomed).getD false
  report (if zoomed then bytes "Zoom on" else bytes "Zoom off") (bytes "Zoom not available")
    (a.onWindow Window.toggleZoom)

def runNavigate (direction : Char) (done : Bytes) (a : TuiApp) : Bool × TuiApp :=
  let r := a.onWindow fun w => w.navigate direction
  if r.1 = some true then (true, r.2.setStatusMessage done) else (false, r.2)

def enterMode (mode : Mode) (message : Bytes) (a : TuiApp) : TuiApp :=
  { a with modes := (a.modes.enter mode).2 }.setStatusMessage message

def runLoad (s : Surroundings) (args : List Bytes) (a : TuiApp) : Bool × TuiApp :=
  match args with
  | [] => (false, a.setStatusMessage (bytes "Usage: :load <menu-id>"))
  | menuId :: _ =>
      if menuId ∉ a.menus.factories then
        (false, a.setStatusMessage (bytes "Unknown menu: " ++ menuId))
      else
        let r := a.callMenus s.docker menuId (.load menuId (made menuId))
        (r.1,
          r.2.setStatusMessage
            ((if r.1 then bytes "Loaded: " else bytes "Failed to load: ") ++ menuId))

def runForward (s : Surroundings) (a : TuiApp) : Bool × TuiApp :=
  let menuId := a.menus.forwardStack.head?.getD []
  let r := a.callMenus s.docker menuId (.forward (made menuId))
  (r.1, r.2.setStatusMessage (if r.1 then bytes "Forward" else bytes "Cannot go forward"))

def runBack (s : Surroundings) (a : TuiApp) : Bool × TuiApp :=
  let r := a.callMenus s.docker [] .back
  (r.1, r.2.setStatusMessage (if r.1 then bytes "Back" else bytes "Cannot go back"))

/-- The handler that every command of the docker menu is wrapped in. -/
def runDocker (s : Surroundings) (c : DockerMenu.Command) (a : TuiApp) : Bool × TuiApp :=
  match a.menus.stack with
  | [] => (false, a.setStatusMessage (bytes "Docker menu not active"))
  | top :: _ =>
      match a.screens top.menu.serial with
      | .main _ => (false, a.setStatusMessage (bytes "Docker menu not active"))
      | .docker d => a.onDocker top.menu.serial d fun d => d.run s.docker c

/-- What the function of a command does; an exception makes it fail. -/
def run (s : Surroundings) (args : List Bytes) (a : TuiApp) : Command → Bool × TuiApp
  | .newWindow => a.runNewWindow s
  | .killWindow =>
      a.onWindows (bytes "Closed window") (bytes "Cannot close last window")
        TuiContext.closeActiveWindow
  | .nextWindow =>
      a.onWindows (bytes "Next window") (bytes "Only one window") TuiContext.focusNextWindow
  | .previousWindow =>
      a.onWindows (bytes "Previous window") (bytes "Only one window")
        TuiContext.focusPreviousWindow
  | .lastWindow =>
      a.onWindows (bytes "Last window") (bytes "No previous window") TuiContext.focusLastWindow
  | .renameWindow => a.runRenameWindow args
  | .split direction done => a.runSplit s direction done
  | .killPane =>
      report (bytes "Closed pane") (bytes "Cannot close last pane")
        ((a.handOver (Window.closedPane Link.removePane)).onWindow fun w =>
          w.closeActive Link.removePane)
  | .saveLayout =>
      report (bytes "Layout saved") (bytes "Could not save layout") (a.onWindow Window.saveLayout)
  | .restoreLayout => a.runRestoreLayout s
  | .toggleZoom => a.runToggleZoom
  | .navigate direction done => a.runNavigate direction done
  | .enterInsertMode => (true, a.enterMode .insert (bytes "INSERT mode"))
  | .enterNormalMode => (true, a.enterMode .normal (bytes "NORMAL mode"))
  | .enterVisualMode => (true, a.enterMode .visual (bytes "VISUAL mode"))
  | .enterCommandMode => (true, a.enterMode .command (bytes "COMMAND mode"))
  | .quit => (true, { a with quit := true })
  | .help => (true, a.setStatusMessage (bytes "See logs for help text"))
  | .load => a.runLoad s args
  | .back => a.runBack s
  | .forward => a.runForward s
  | .menus =>
      (true,
        a.setStatusMessage
          (bytes "Registered menus: " ++ (bytes ", ").intercalate a.menus.factories))
  | .home => (true, (a.callMenus s.docker [] .clearStack).2.setStatusMessage (bytes "Welcome"))
  | .docker c => a.runDocker s c

/-- `CommandManager::execute`. -/
def execute (s : Surroundings) (name : Bytes) (args : List Bytes) (a : TuiApp) : Bool × TuiApp :=
  match a.commands.find? name with
  | none => (false, a)
  | some c => a.run s args c

/-! ## The command bar -/

def deactivateBar (a : TuiApp) : TuiApp := { a with bar := {} }

/-- `CommandBar::execute_buffer`. -/
def executeBuffer (s : Surroundings) (a : TuiApp) : TuiApp :=
  match getWords a.bar.buffer with
  | [] => (a.setStatusMessage (bytes "No command entered")).deactivateBar
  | command :: args =>
      let r := a.execute s command args
      (r.2.setStatusMessage
        ((if r.1 then bytes "Command: " else bytes "Command failed: ") ++ command)).deactivateBar

/-- `std::isprint`. -/
def isPrint (c : UInt8) : Bool := 32 ≤ c && c < 127

/-- What an event adds to the text that is edited or takes from it, if it is meant for it. -/
def edited (event : Event) (buffer : Bytes) : Option Bytes :=
  match event with
  | .key .backspace => some buffer.dropLast
  | .character (c :: ch) => if isPrint c then some (buffer ++ c :: ch) else none
  | _ => none

def handleBarEvent (s : Surroundings) (event : Event) (a : TuiApp) : Bool × TuiApp :=
  if event = .key .escape then
    (true, a.deactivateBar.setStatusMessage (bytes "Command cancelled"))
  else if event = .key .returnKey then (true, a.executeBuffer s)
  else
    match edited event a.bar.buffer with
    | none => (false, a)
    | some buffer => (true, { a with bar.buffer := buffer })

/-! ## Events by mode -/

/-- A command for a key, which says so when it fails. -/
def executeKey (s : Surroundings) (command : Bytes) (a : TuiApp) : TuiApp :=
  let r := a.execute s command []
  if r.1 then r.2 else r.2.setStatusMessage (bytes "Command failed: " ++ command)

/-- The input of an event, where it is one of a kind that says nothing. -/
def isFiller : Event → Bool
  | .character s => s = [] || s = [0]
  | .sequence s => s = [] || s = [0]
  | _ => false

def handlePrefixInput (s : Surroundings) (event : Event) (a : TuiApp) : Bool × TuiApp :=
  let a := { a with sawEscape := false }
  match a.keys.lookup event .prefixMode true with
  | some command => (true, executeKey s command { a with modes := a.modes.deactivatePrefix })
  | none =>
      let a := { a with modes := a.modes.deactivatePrefix }
      if isFiller event then (true, a)
      else (false, a.setStatusMessage (bytes "Unknown prefix command"))

/-- What a key is for a shell. -/
def keyBytes : Key → Option Bytes
  | .arrowUp => some (bytes "\x1b[A")
  | .arrowDown => some (bytes "\x1b[B")
  | .arrowLeft => some (bytes "\x1b[D")
  | .arrowRight => some (bytes "\x1b[C")
  | .backspace => some [127]
  | .delete => some (bytes "\x1b[3~")
  | .home => some (bytes "\x1b[H")
  | .endKey => some (bytes "\x1b[F")
  | .pageUp => some (bytes "\x1b[5~")
  | .pageDown => some (bytes "\x1b[6~")
  | .tab => some [9]
  | .returnKey => some [13]
  | _ => none

/-- F7, which quits. -/
def quitKey : Key := .function 6

def handleInsertInput (event : Event) (a : TuiApp) : Bool × TuiApp :=
  if a.windows.activeWindow = none then (false, a)
  else
    match event with
    | .character ch =>
        if ch = [4] then (true, { a with quit := true }) else (true, a.sendInput ch)
    | .key k =>
        match keyBytes k with
        | some data => (true, a.sendInput data)
        | none => if k = quitKey then (true, { a with quit := true }) else (false, a)
    | _ => (false, a)

/-- `MainMenu::on_item_selected`. -/
def onItemSelected (s : Surroundings) (index : Int) (a : TuiApp) : TuiApp :=
  if index = 0 then (a.execute s (bytes "load") [bytes "docker"]).2
  else if index = 1 then a.setStatusMessage (bytes "System Tools - Coming Soon")
  else if index = 2 then a.setStatusMessage (bytes "Git Management - Coming Soon")
  else if index = 3 then a.setStatusMessage (bytes "Settings - Coming Soon")
  else if index = 4 then (a.execute s (bytes "quit") []).2
  else a

/-- The handler of the main menu's component. -/
def handleMainEvent (s : Surroundings) (serial : Nat) (index : Int) (event : Event) (a : TuiApp) :
    Bool × TuiApp :=
  if event = .key .arrowUp then
    (true, a.setScreen serial (.main (if index > 0 then index - 1 else index)))
  else if event = .key .arrowDown then
    (true, a.setScreen serial (.main (if index < 4 then index + 1 else index)))
  else if event = .key .returnKey then (true, a.onItemSelected s index)
  else (false, a)

/-- The current menu has the event first. -/
def handleMenuEvent (s : Surroundings) (event : Event) (a : TuiApp) : Bool × TuiApp :=
  match a.menus.stack with
  | [] => (false, a)
  | top :: _ =>
      match a.screens top.menu.serial with
      | .main index => a.handleMainEvent s top.menu.serial index event
      | .docker d => a.onDocker top.menu.serial d fun d => d.handleEvent s.docker event

def handleNormalInput (s : Surroundings) (event : Event) (a : TuiApp) : Bool × TuiApp :=
  let r := a.handleMenuEvent s event
  if r.1 then (true, r.2)
  else
    match r.2.keys.lookup event .normal false with
    | some command => (true, r.2.executeKey s command)
    | none => (false, r.2)

/-! ## An event -/

/-- Ctrl-B, as a character or by the bytes of the event. -/
def isPrefixKey : Event → Bool
  | .character s => s.head? = some 2
  | .sequence s => s.head? = some 2
  | _ => false

def activatePrefix (s : Surroundings) (a : TuiApp) : TuiApp :=
  { a with modes := a.modes.activatePrefix 1000 s.now }.setStatusMessage (bytes "PREFIX MODE")

/-- An Escape that was held back goes to the shell. -/
def releaseEscape (a : TuiApp) : TuiApp :=
  let a' := { a with sawEscape := false }
  if a.sawEscape ∧ a.modes.currentMode = .insert then a'.sendInput [27] else a'

/-- The current mode handles an event. -/
def handleByMode (s : Surroundings) (event : Event) (a : TuiApp) : Bool × TuiApp :=
  match a.modes.currentMode with
  | .prefixMode => a.handlePrefixInput s event
  | .insert => a.handleInsertInput event
  | .normal => a.handleNormalInput s event
  | _ => (false, a)

def checkPrefixTimeout (s : Surroundings) (a : TuiApp) : TuiApp :=
  { a with modes := (a.modes.checkPrefixTimeout s.now).2 }

/-- `handle_input`: whether the event was handled. -/
def handleInput (s : Surroundings) (event : Event) (a : TuiApp) : Bool × TuiApp :=
  let a := a.checkPrefixTimeout s
  if event = .custom then (false, a)
  else if a.bar.active then a.handleBarEvent s event
  else if isPrefixKey event then (true, a.activatePrefix s)
  else if event = .key .escape then (true, { a with sawEscape := true })
  else if a.sawEscape ∧ event = .character (bytes "b") then
    (true, { a with sawEscape := false }.activatePrefix s)
  else
    let a := a.releaseEscape
    if event = .character (bytes ":") then
      (true, { a with bar := { active := true } }.setStatusMessage (bytes "Command mode"))
    else a.handleByMode s event

/-- An event, and what it finds. -/
abbrev Input := Surroundings × Event

def step (a : TuiApp) (i : Input) : TuiApp := (a.handleInput i.1 i.2).2

end TuiApp

end Nazg.Tui

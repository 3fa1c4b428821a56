import Nazg.Proofs.MenuLife
import Nazg.Tui.App

/-!
# What events do to the menus

A call on the menu manager moves over the stack: a menu is put on top, the top one is taken off,
or all are. With each move goes a list of calls on the menus. An event is a chain of such calls,
of what the current menu does with a key or a command, and of changes that leave the menus and
the keys alone: of the windows and of what is in them, where there are any.
-/

namespace Nazg.Tui

open Lib

namespace MenuManager

/-- The calls on the current menu when it is left. -/
def leaving : List MenuStackEntry → List (Nat × MenuCall)
  | [] => []
  | current :: _ =>
      (if current.menu.preserveState then [(current.menu.serial, .saveState)] else []) ++
        [(current.menu.serial, .onUnload)]

/-- The stack when the current menu has saved its state. -/
def savedTop : List MenuStackEntry → List MenuStackEntry
  | [] => []
  | current :: rest =>
      (if current.menu.preserveState then { current with savedState := current.menu.state }
      else current) :: rest

/-- The calls on the menu that is come back to. -/
def returning (previous : MenuStackEntry) : List (Nat × MenuCall) :=
  (if previous.menu.preserveState ∧ previous.savedState.keys ≠ [] then
    [(previous.menu.serial, .restoreState)] else []) ++ [(previous.menu.serial, .onResume)]

/-- What a call leaves of the stack, with the calls that it made on the menus. -/
inductive Moved (preserveState : Bool) (m m' : MenuManager) : List (Nat × MenuCall) → Prop where
  | stayed : m'.stack = m.stack → m'.built = m.built → Moved preserveState m m' []
  | loaded (menuId : Bytes) (state : OrdMap Bytes Bytes) :
      m'.stack =
        { menu := ⟨m.built, preserveState, state⟩, menuId := menuId } :: savedTop m.stack →
      m'.built = m.built + 1 →
      Moved preserveState m m' (leaving m.stack ++ [(m.built, .build), (m.built, .onLoad)])
  | wentBack {current previous : MenuStackEntry} {rest : List MenuStackEntry} :
      m.stack = current :: previous :: rest → m'.stack = previous :: rest → m'.built = m.built →
      Moved preserveState m m' (leaving m.stack ++ returning previous)
  | cleared : m'.stack = [] → m'.built = m.built →
      Moved preserveState m m' (m.serials.reverse.map fun k => (k, .onUnload))

variable {preserveState : Bool}

theorem Moved.congr {m m' n n' : MenuManager} {calls : List (Nat × MenuCall)}
    (h : Moved preserveState m m' calls) (hstack : n.stack = m.stack) (hbuilt : n.built = m.built)
    (hstack' : n'.stack = m'.stack) (hbuilt' : n'.built = m'.built) :
    Moved preserveState n n' calls := by
  have hserials : n.serials = m.serials := by rw [serials, serials, hstack]
  cases h with
  | stayed h h' => exact .stayed (by rw [hstack', hstack, h]) (by rw [hbuilt', hbuilt, h'])
  | loaded menuId state h h' =>
      rw [← hstack, ← hbuilt] at h ⊢
      exact .loaded menuId state (hstack'.trans h) (by rw [hbuilt', h', hbuilt])
  | wentBack hbefore h h' =>
      rw [← hstack] at hbefore ⊢
      exact .wentBack hbefore (hstack'.trans h) (by rw [hbuilt', h', hbuilt])
  | cleared h h' =>
      rw [← hserials]
      exact .cleared (hstack'.trans h) (by rw [hbuilt', h', hbuilt])

theorem unloadCurrent_fields (m : MenuManager) :
    m.unloadCurrent.stack = savedTop m.stack ∧ m.unloadCurrent.built = m.built ∧
      m.unloadCurrent.context = m.context ∧ m.unloadCurrent.log = m.log ++ leaving m.stack := by
  cases hstack : m.stack with
  | nil => simp [unloadCurrent, savedTop, leaving, hstack]
  | cons current rest =>
      by_cases hpreserve : current.menu.preserveState
      · simp [unloadCurrent, saveCurrent, savedTop, leaving, hstack, hpreserve, call]
      · simp [unloadCurrent, saveCurrent, savedTop, leaving, hstack, hpreserve, call]

theorem moved_load {m : MenuManager} (menuId : Bytes) {made : Made}
    (hmade : ∃ state, made = some (preserveState, state)) (hcontext : m.context ≠ none) :
    ∃ calls, Moved preserveState m (m.load menuId made).2 calls ∧
      (m.load menuId made).2.log = m.log ++ calls := by
  obtain ⟨hstack, hbuilt, hkept, hlog⟩ := unloadCurrent_fields m
  obtain ⟨state, rfl⟩ := hmade
  have hcontext' : ¬ m.unloadCurrent.context = none := hkept ▸ hcontext
  rw [load]
  split
  · exact ⟨[], .stayed rfl rfl, (List.append_nil _).symm⟩
  · dsimp only
    rw [if_neg hcontext']
    refine ⟨_, .loaded menuId state ?_ ?_, ?_⟩
    · simp only [updateMode, call, hstack, hbuilt]
    · simp only [updateMode, call, hbuilt]
    · simp only [updateMode, call, hlog, hbuilt, List.append_assoc, List.singleton_append]

theorem back_of_stack {m : MenuManager} {current previous : MenuStackEntry}
    {rest : List MenuStackEntry} (h : m.stack = current :: previous :: rest) :
    m.back.2.stack = previous :: rest ∧ m.back.2.built = m.built ∧
      m.back.2.log = m.log ++ (leaving m.stack ++ returning previous) := by
  obtain ⟨hstack, hbuilt, -, hlog⟩ := unloadCurrent_fields m
  rw [h, savedTop] at hstack
  rw [back, hstack, returning]
  dsimp only
  split
  · simp only [updateMode, call, hlog, hbuilt, List.append_assoc, true_and]
  · simp only [updateMode, call, hlog, hbuilt, List.append_assoc, List.nil_append, true_and]

theorem moved_back (m : MenuManager) :
    ∃ calls, Moved preserveState m m.back.2 calls ∧ m.back.2.log = m.log ++ calls := by
  rcases hstack : m.stack with _ | ⟨current, _ | ⟨previous, rest⟩⟩
  · have hback : m.back.2 = m := by simp [back, (unloadCurrent_fields m).1, hstack, savedTop]
    exact ⟨[], by rw [hback]; exact .stayed rfl rfl, by rw [hback, List.append_nil]⟩
  · have hback : m.back.2 = m := by simp [back, (unloadCurrent_fields m).1, hstack, savedTop]
    exact ⟨[], by rw [hback]; exact .stayed rfl rfl, by rw [hback, List.append_nil]⟩
  · obtain ⟨hstack', hbuilt, hlog⟩ := back_of_stack hstack
    exact ⟨_, .wentBack hstack hstack' hbuilt, hlog⟩

/-- The factory of a call makes a menu that preserves its state or does not. -/
def Call.Makes (preserveState : Bool) : Call → Prop
  | .load _ made => ∃ state, made = some (preserveState, state)
  | .forward made => ∃ state, made = some (preserveState, state)
  | _ => True

theorem moved_perform {m : MenuManager} {c : Call} (hmade : c.Makes preserveState)
    (hcontext : m.context ≠ none) :
    ∃ calls, Moved preserveState m (m.perform c).2 calls ∧
      (m.perform c).2.log = m.log ++ calls := by
  cases c with
  | load menuId made => exact moved_load menuId hmade hcontext
  | back => exact moved_back m
  | forward made =>
      rw [perform, forward]
      split
      · exact ⟨[], .stayed rfl rfl, (List.append_nil _).symm⟩
      · next menuId saved _ =>
          obtain ⟨calls, hmoved, hlog⟩ :=
            moved_load (m := { m with forwardStack := saved }) menuId hmade hcontext
          refine ⟨calls, hmoved.congr rfl rfl ?_ ?_, ?_⟩
          · dsimp only
            split <;> rfl
          · dsimp only
            split <;> rfl
          · dsimp only
            split
            · exact hlog
            · exact hlog
  | clearStack =>
      refine ⟨_, .cleared rfl ?_, ?_⟩
      · rw [perform, clearStack, foldl_onUnload]
        rfl
      · rw [perform, clearStack, foldl_onUnload, List.map_reverse]
        rfl

end MenuManager

/-! ## Events -/

/-- What a command does with a window, and which panes it hands to the reaper. -/
inductive Window.Work : (Window → Bool × Window) → (Window → List Nat) → Prop where
  | unzoom : Work (fun w => (false, if w.zoomed then w.unzoom else w)) fun _ => []
  | split (direction : SplitDirection) :
      Work (fun w => ((w.splitActive direction).1.isSome, (w.splitActive direction).2)) fun _ => []
  | close : Work (fun w => w.closeActive Link.removePane) (closedPane Link.removePane)
  | navigate (direction : Char) : Work (fun w => w.navigate direction) fun _ => []
  | zoom : Work toggleZoom fun _ => []
  | save : Work saveLayout fun _ => []
  | restore : Work restoreLayout replacedPanes

/-- The current dashboard has a command or a key. -/
inductive DockerMenu.Does (answers : DockerAnswers) : (DockerMenu → Bool × DockerMenu) → Prop where
  | command (c : DockerMenu.Command) : Does answers fun d => d.run answers c
  | event (e : Event) : Does answers fun d => d.handleEvent answers e

namespace TuiApp

/-- The calls of the commands, with the id that a factory is called for. -/
inductive CallFor : Bytes → MenuManager.Call → Prop where
  | load (menuId : Bytes) : CallFor menuId (.load menuId (made menuId))
  | back : CallFor [] .back
  | forward (menuId : Bytes) : CallFor menuId (.forward (made menuId))
  | home : CallFor [] .clearStack

/-- What is done with the windows and their panes. -/
inductive Panes (a b : TuiApp) : Prop where
  | kept :
      (b.windows, b.contents, b.sent, b.reaped) = (a.windows, a.contents, a.sent, a.reaped) →
      Panes a b
  | listed (c : TuiContext.Call) :
      (b.windows, b.contents, b.sent, b.reaped) =
        (a.windows.step c, a.contents, a.sent, a.reaped) → Panes a b
  | opened :
      (b.windows, b.contents, b.sent, b.reaped) =
        (a.windows.createWindow, (a.setContents a.windows.created .initial).contents, a.sent,
          a.reaped) → Panes a b
  | worked {f : Window → Bool × Window} {handed : Window → List Nat} {window : TuiContext.Window} :
      Window.Work f handed → a.windows.activeWindow = some window →
      (b.windows, b.contents, b.sent, b.reaped) =
        (a.windows, (a.setContents window.serial (f (a.contents window.serial)).2).contents,
          a.sent,
          a.reaped ++ (handed (a.contents window.serial)).map fun pane =>
            (window.serial, pane)) → Panes a b
  | wrote {window : TuiContext.Window} {pane : Nat} {data : Bytes} :
      pane ∈ (a.contents window.serial).panes →
      (b.windows, b.contents, b.sent, b.reaped) =
        (a.windows, a.contents, a.sent ++ [(window.serial, pane, data)], a.reaped) → Panes a b

/-- The menus and the keys are left alone. -/
structure Beside (a b : TuiApp) : Prop where
  menus : b.menus = a.menus
  screens : b.screens = a.screens
  keys : b.keys = a.keys
  panes : a.Panes b

/-- What an event does to the menus, one thing after the other. -/
inductive Chain (answers : DockerAnswers) (a : TuiApp) : TuiApp → Prop where
  | refl : Chain answers a a
  | beside {b c : TuiApp} : Chain answers a b → Beside b c → Chain answers a c
  | main {b : TuiApp} {top : MenuStackEntry} {below : List MenuStackEntry} {index index' : Int} :
      Chain answers a b → b.menus.stack = top :: below →
      b.screens top.menu.serial = .main index →
      (0 ≤ index ∧ index ≤ 4 → 0 ≤ index' ∧ index' ≤ 4) →
      Chain answers a (b.setScreen top.menu.serial (.main index'))
  | docker {b : TuiApp} {top : MenuStackEntry} {below : List MenuStackEntry} {d : DockerMenu}
      {f : DockerMenu → Bool × DockerMenu} :
      Chain answers a b → b.menus.stack = top :: below →
      b.screens top.menu.serial = .docker d → DockerMenu.Does answers f →
      Chain answers a (b.onDocker top.menu.serial d f).2
  | menus {b : TuiApp} {menuId : Bytes} {c : MenuManager.Call} :
      Chain answers a b → CallFor menuId c → Chain answers a (b.callMenus answers menuId c).2

variable {s : Surroundings} {answers : DockerAnswers} {menuId : Bytes} {a b c : TuiApp}

theorem Chain.trans (h : Chain answers a b) (h' : Chain answers b c) : Chain answers a c := by
  induction h' with
  | refl => exact h
  | beside _ hbeside ih => exact ih.beside hbeside
  | main _ hstack hscreen hindex ih => exact ih.main hstack hscreen hindex
  | docker _ hstack hscreen hdoes ih => exact ih.docker hstack hscreen hdoes
  | menus _ hcall ih => exact ih.menus hcall

theorem Chain.status (h : Chain answers a b) (message : Bytes) :
    Chain answers a (b.setStatusMessage message) :=
  h.beside ⟨rfl, rfl, rfl, .kept rfl⟩

theorem Beside.chain (h : Beside a b) : Chain answers a b := Chain.refl.beside h

theorem beside_reaping {f : Window → Bool × Window} {handed : Window → List Nat}
    (h : Window.Work f handed) (a : TuiApp) : Beside a ((a.handOver handed).onWindow f).2 := by
  cases hactive : a.windows.activeWindow with
  | none =>
      simp only [handOver, hactive, onWindow]
      exact ⟨rfl, rfl, rfl, .kept rfl⟩
  | some window =>
      simp only [handOver, hactive, onWindow]
      exact ⟨rfl, rfl, rfl, .worked h hactive rfl⟩

theorem handOver_nothing (a : TuiApp) : a.handOver (fun _ => []) = a := by
  rw [handOver]
  split
  · rfl
  · simp

theorem beside_onWindow {f : Window → Bool × Window} (h : Window.Work f fun _ => [])
    (a : TuiApp) : Beside a (a.onWindow f).2 := by
  have hreaping := beside_reaping h a
  rwa [handOver_nothing] at hreaping

theorem beside_report (done failed : Bytes) (r : Option Bool × TuiApp) :
    Beside r.2 (report done failed r).2 := by
  rw [report.eq_def]
  split
  · exact ⟨rfl, rfl, rfl, .kept rfl⟩
  · exact ⟨rfl, rfl, rfl, .kept rfl⟩
  · exact ⟨rfl, rfl, rfl, .kept rfl⟩

theorem Beside.report {r : Option Bool × TuiApp} (h : Beside a r.2) (done failed : Bytes) :
    Chain answers a (report done failed r).2 :=
  h.chain.beside (beside_report done failed r)

theorem beside_sendInput (data : Bytes) (a : TuiApp) (sawEscape : Bool) :
    Beside a (sendInput data { a with sawEscape := sawEscape }) := by
  rw [sendInput]
  split
  · exact ⟨rfl, rfl, rfl, .kept rfl⟩
  · split
    · exact ⟨rfl, rfl, rfl, .kept rfl⟩
    · split
      · next howned => exact ⟨rfl, rfl, rfl, .wrote howned rfl⟩
      · exact ⟨rfl, rfl, rfl, .kept rfl⟩

theorem chain_run (s : Surroundings) (args : List Bytes) (a : TuiApp) (c : Command) :
    Chain s.docker a (a.run s args c).2 := by
  cases c with
  | newWindow =>
      rw [run, runNewWindow]
      split
      · exact Chain.refl.beside ⟨rfl, rfl, rfl, .opened rfl⟩
      · exact .refl
  | killWindow => exact Chain.refl.beside ⟨rfl, rfl, rfl, .listed .closeActiveWindow rfl⟩
  | nextWindow => exact Chain.refl.beside ⟨rfl, rfl, rfl, .listed .focusNextWindow rfl⟩
  | previousWindow => exact Chain.refl.beside ⟨rfl, rfl, rfl, .listed .focusPreviousWindow rfl⟩
  | lastWindow => exact Chain.refl.beside ⟨rfl, rfl, rfl, .listed .focusLastWindow rfl⟩
  | renameWindow => exact Chain.refl.beside ⟨rfl, rfl, rfl, .listed (.renameWindow args) rfl⟩
  | split direction done =>
      rw [run, runSplit]
      split
      · exact (beside_onWindow .unzoom a).chain
      · exact (beside_onWindow (.split direction) a).report _ _
  | killPane => exact (beside_reaping .close a).report _ _
  | saveLayout => exact (beside_onWindow .save a).report _ _
  | restoreLayout =>
      rw [run, runRestoreLayout]
      split
      · exact .refl
      · exact (beside_reaping .restore a).report _ _
  | toggleZoom => exact (beside_onWindow .zoom a).report _ _
  | navigate direction done =>
      have hmoved := beside_onWindow (.navigate direction) a
      rw [run, runNavigate]
      split
      · exact hmoved.chain.status done
      · exact hmoved.chain
  | enterInsertMode => exact Chain.refl.beside ⟨rfl, rfl, rfl, .kept rfl⟩
  | enterNormalMode => exact Chain.refl.beside ⟨rfl, rfl, rfl, .kept rfl⟩
  | enterVisualMode => exact Chain.refl.beside ⟨rfl, rfl, rfl, .kept rfl⟩
  | enterCommandMode => exact Chain.refl.beside ⟨rfl, rfl, rfl, .kept rfl⟩
  | quit => exact Chain.refl.beside ⟨rfl, rfl, rfl, .kept rfl⟩
  | help => exact Chain.refl.status _
  | load =>
      rw [run, runLoad.eq_def]
      split
      · exact Chain.refl.status _
      · split
        · exact Chain.refl.status _
        · exact (Chain.refl.menus (.load _)).status _
  | back => exact (Chain.refl.menus .back).status _
  | forward => exact (Chain.refl.menus (.forward _)).status _
  | menus => exact Chain.refl.status _
  | home => exact (Chain.refl.menus .home).status _
  | docker c =>
      rw [run, runDocker]
      split
      · exact Chain.refl.status _
      · next hstack =>
          split
          · exact Chain.refl.status _
          · next hscreen => exact Chain.refl.docker hstack hscreen (.command c)

theorem chain_execute (s : Surroundings) (name : Bytes) (args : List Bytes) (a : TuiApp) :
    Chain s.docker a (a.execute s name args).2 := by
  rw [execute]
  split
  · exact .refl
  · exact chain_run s args a _

theorem chain_executeKey (s : Surroundings) (command : Bytes) (a : TuiApp) :
    Chain s.docker a (a.executeKey s command) := by
  rw [executeKey]
  split
  · exact chain_execute s command [] a
  · exact (chain_execute s command [] a).status _

theorem chain_handleBarEvent (s : Surroundings) (event : Event) (a : TuiApp) :
    Chain s.docker a (a.handleBarEvent s event).2 := by
  rw [handleBarEvent]
  split
  · exact Chain.refl.beside ⟨rfl, rfl, rfl, .kept rfl⟩
  · split
    · rw [executeBuffer]
      split
      · exact Chain.refl.beside ⟨rfl, rfl, rfl, .kept rfl⟩
      · exact (chain_execute s _ _ a).beside ⟨rfl, rfl, rfl, .kept rfl⟩
    · split
      · exact .refl
      · exact Chain.refl.beside ⟨rfl, rfl, rfl, .kept rfl⟩

theorem chain_handlePrefixInput (s : Surroundings) (event : Event) (a : TuiApp) :
    Chain s.docker a (a.handlePrefixInput s event).2 := by
  rw [handlePrefixInput]
  dsimp only
  have hended : Chain s.docker a
      { a with sawEscape := false, modes := a.modes.deactivatePrefix } :=
    Chain.refl.beside ⟨rfl, rfl, rfl, .kept rfl⟩
  split
  · exact hended.trans (chain_executeKey s _ _)
  · split
    · exact hended
    · exact hended.status _

theorem chain_handleInsertInput (event : Event) (a : TuiApp) :
    Chain answers a (a.handleInsertInput event).2 := by
  rw [handleInsertInput.eq_def]
  split
  · exact .refl
  · split
    · split
      · exact Chain.refl.beside ⟨rfl, rfl, rfl, .kept rfl⟩
      · exact (beside_sendInput _ a a.sawEscape).chain
    · split
      · exact (beside_sendInput _ a a.sawEscape).chain
      · split
        · exact Chain.refl.beside ⟨rfl, rfl, rfl, .kept rfl⟩
        · exact .refl
    · exact .refl

theorem chain_onItemSelected (s : Surroundings) (index : Int) (a : TuiApp) :
    Chain s.docker a (a.onItemSelected s index) := by
  rw [onItemSelected]
  split
  · exact chain_execute s _ _ a
  · split
    · exact Chain.refl.status _
    · split
      · exact Chain.refl.status _
      · split
        · exact Chain.refl.status _
        · split
          · exact chain_execute s _ _ a
          · exact .refl

theorem chain_handleMenuEvent (s : Surroundings) (event : Event) (a : TuiApp) :
    Chain s.docker a (a.handleMenuEvent s event).2 := by
  rw [handleMenuEvent]
  split
  · exact .refl
  · next hstack =>
      split
      · next index hscreen =>
          rw [handleMainEvent]
          split
          · refine Chain.refl.main hstack hscreen fun h => ?_
            split <;> omega
          · split
            · refine Chain.refl.main hstack hscreen fun h => ?_
              split <;> omega
            · split
              · exact chain_onItemSelected s index a
              · exact .refl
      · next hscreen => exact Chain.refl.docker hstack hscreen (.event event)

theorem chain_handleNormalInput (s : Surroundings) (event : Event) (a : TuiApp) :
    Chain s.docker a (a.handleNormalInput s event).2 := by
  have hmenu := chain_handleMenuEvent s event a
  rw [handleNormalInput]
  split
  · exact hmenu
  · split
    · exact hmenu.trans (chain_executeKey s _ _)
    · exact hmenu

theorem beside_releaseEscape (a : TuiApp) : Beside a a.releaseEscape := by
  rw [releaseEscape]
  split
  · exact beside_sendInput [27] a false
  · exact ⟨rfl, rfl, rfl, .kept rfl⟩

/-- An event is such a chain. -/
theorem chain_step (a : TuiApp) (i : Input) : Chain i.1.docker a (a.step i) := by
  obtain ⟨s, event⟩ := i
  have hchecked : Chain s.docker a (a.checkPrefixTimeout s) :=
    Chain.refl.beside ⟨rfl, rfl, rfl, .kept rfl⟩
  have hreleased := hchecked.beside (beside_releaseEscape (a.checkPrefixTimeout s))
  rw [step, handleInput]
  dsimp only
  split
  · exact hchecked
  · split
    · exact hchecked.trans (chain_handleBarEvent s event _)
    · split
      · exact hchecked.beside ⟨rfl, rfl, rfl, .kept rfl⟩
      · split
        · exact hchecked.beside ⟨rfl, rfl, rfl, .kept rfl⟩
        · split
          · exact hchecked.beside ⟨rfl, rfl, rfl, .kept rfl⟩
          · split
            · exact hreleased.beside ⟨rfl, rfl, rfl, .kept rfl⟩
            · refine hreleased.trans ?_
              rw [handleByMode]
              split
              · exact chain_handlePrefixInput s event _
              · exact chain_handleInsertInput event _
              · exact chain_handleNormalInput s event _
              · exact .refl

/-- What the parts of the chains keep, every run keeps. -/
theorem always_of_chain {P : TuiApp → Prop} {Q : Surroundings → Prop} {start : TuiApp}
    (hstart : P start)
    (hchain : ∀ s a b, Q s → P a → Chain s.docker a b → P b) (inputs : List Input)
    (hinputs : ∀ i ∈ inputs, Q i.1) : P (Runs.run step start inputs) := by
  induction inputs generalizing start with
  | nil => exact hstart
  | cons i inputs ih =>
      obtain ⟨hfirst, hrest⟩ := List.forall_mem_cons.1 hinputs
      exact ih (hchain i.1 start (start.step i) hfirst hstart (chain_step start i)) hrest

theorem beside_registerDockerCommands (a : TuiApp) : Beside a a.registerDockerCommands := by
  rw [registerDockerCommands]
  split
  · exact ⟨rfl, rfl, rfl, .kept rfl⟩
  · exact ⟨rfl, rfl, rfl, .kept rfl⟩

theorem menus_callMenu (entry : Nat × MenuCall) (a : TuiApp) :
    (a.callMenu answers menuId entry).menus = a.menus := by
  rw [callMenu]
  split
  · rfl
  · exact (beside_registerDockerCommands a).menus
  · rfl
  · rfl
  · split <;> rfl
  · rfl

theorem menus_foldl (entries : List (Nat × MenuCall)) (a : TuiApp) :
    (entries.foldl (callMenu answers menuId) a).menus = a.menus := by
  induction entries generalizing a with
  | nil => rfl
  | cons entry entries ih => rw [List.foldl_cons, ih, menus_callMenu]

theorem serials_readyMenus (a : TuiApp) : a.readyMenus.serials = a.menus.serials := by
  rw [MenuManager.serials, MenuManager.serials, readyMenus]
  cases a.menus.stack with
  | nil => rfl
  | cons top below => rfl

/-- The calls on the menus of one call on the manager. -/
theorem callMenus_moved {menuId : Bytes} {call : MenuManager.Call} (h : CallFor menuId call)
    (answers : DockerAnswers) (a : TuiApp) :
    ∃ calls, MenuManager.Moved true a.readyMenus (a.readyMenus.perform call).2 calls ∧
      (a.callMenus answers menuId call).2 =
        calls.foldl (callMenu answers menuId)
          { a with
            menus := (a.readyMenus.perform call).2
            modes := (a.readyMenus.perform call).2.context.getD a.modes } := by
  have hmade : call.Makes true := by
    cases h with
    | load menuId => exact ⟨_, rfl⟩
    | back => trivial
    | forward menuId => exact ⟨_, rfl⟩
    | home => trivial
  obtain ⟨calls, hmoved, hlog⟩ :=
    MenuManager.moved_perform (m := a.readyMenus) hmade (Option.some_ne_none _)
  refine ⟨calls, hmoved, ?_⟩
  have hlog' : (a.readyMenus.perform call).2.log = a.menus.log ++ calls := hlog
  rw [callMenus]
  simp only [hlog', List.drop_left']

end TuiApp

end Nazg.Tui

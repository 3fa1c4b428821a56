import Nazg.Proofs.DockerKeys
import Nazg.Proofs.ShellInput

/-!
# The dashboards on the stack

In every run the indices of a dashboard stay inside of its lists, so that nothing is read
outside of them, and it shows an error or a status but not both. A menu that is covered has
saved what it shows, and restoring that changes nothing: `back` shows a dashboard as it was
left, with its lists read again.
-/

namespace Nazg.Tui

open Lib

/-- The lists are of a size that `int` can count, and the ids are of 64 bits. -/
structure DockerAnswers.Fit (answers : DockerAnswers) : Prop where
  servers : answers.servers.1.length < 2 ^ 31
  ids : ∀ s ∈ answers.servers.1, -2 ^ 63 ≤ s.id ∧ s.id ≤ 2 ^ 63 - 1
  containers : ∀ id, (answers.containers id).1.length < 2 ^ 31

namespace DockerMenu

structure Sound (d : DockerMenu) : Prop where
  servers : d.servers.length < 2 ^ 31
  ids : ∀ s ∈ d.servers, -2 ^ 63 ≤ s.id ∧ s.id ≤ 2 ^ 63 - 1
  containers : d.containers.length < 2 ^ 31
  server : 0 ≤ d.selectedServerIndex ∧ d.selectedServerIndex < 2 ^ 31
  container : d.selectedContainerIndex = 0 ∨
    0 ≤ d.selectedContainerIndex ∧ d.selectedContainerIndex < d.containers.length
  stack : d.selectedStackIndex = 0
  image : d.selectedImageIndex = 0
  volume : d.selectedVolumeIndex = 0
  network : d.selectedNetworkIndex = 0
  current : -2 ^ 63 ≤ d.currentServerId ∧ d.currentServerId ≤ 2 ^ 63 - 1
  messages : d.errorMessage = [] ∨ d.statusMessage = []
  inBounds : d.outOfBounds = false

variable {d : DockerMenu} {answers : DockerAnswers}

theorem sound_new : ({} : DockerMenu).Sound := by
  constructor <;> simp

/-! ## Messages -/

/-- Of the dashboard no more than the messages is another. -/
theorem Sound.messages_of (h : d.Sound) {error status shown : Bytes}
    (hmessages : error = [] ∨ status = []) :
    Sound { d with errorMessage := error, statusMessage := status, shown := shown } :=
  { h with messages := hmessages }

theorem Sound.setStatus (h : d.Sound) (message : Bytes) : (d.setStatus message).Sound := by
  refine h.messages_of ?_
  by_cases hmessage : message = []
  · exact .inr hmessage
  · exact .inl (if_pos hmessage)

theorem Sound.setError (h : d.Sound) (message : Bytes) : (d.setError message).Sound :=
  h.messages_of (.inr rfl)

theorem Sound.failed (h : d.Sound) (what : Bytes) (error : Option Bytes) :
    (failed what error d).Sound := by
  cases error with
  | none => exact h
  | some e => exact h.setError _

/-! ## Lists -/

theorem Sound.loadServers (h : d.Sound) (hfit : answers.Fit) : (d.loadServers answers).Sound := by
  have hread : Sound { d with servers := answers.servers.1, errorMessage := [] } :=
    { h with
      servers := hfit.servers
      ids := hfit.ids
      messages := .inl rfl }
  exact hread.failed _ _

theorem getAt_eq_some {α : Type*} {v : List α} {i : Int} {x : α} :
    getAt v i = some x ↔ 0 ≤ i ∧ v[i.toNat]? = some x := by
  rw [getAt]
  split
  · next hneg => exact ⟨fun h => absurd h.symm (Option.some_ne_none x), fun h => by omega⟩
  · next hpos => exact ⟨fun h => ⟨by omega, h⟩, fun h => h.2⟩

theorem Sound.onServerSelected (h : d.Sound) (hfit : answers.Fit) (index : Int) :
    (d.onServerSelected answers index).Sound := by
  rw [DockerMenu.onServerSelected]
  split
  · exact h
  · next server hserver =>
      obtain ⟨hnonneg, hget⟩ := getAt_eq_some.1 hserver
      have hlength := (List.getElem?_eq_some_iff.1 hget).1
      have hids := h.ids server (List.mem_of_getElem? hget)
      have hservers := h.servers
      have hupper : index < 2 ^ 31 := by omega
      have hchosen : ∀ error status shown : Bytes, error = [] ∨ status = [] →
          Sound { d with
            containers := (answers.containers server.id).1
            selectedServerIndex := index
            currentServerId := server.id
            selectedContainerIndex := 0
            errorMessage := error
            statusMessage := status
            shown := shown } := fun error status shown hmessages =>
        { h with
          containers := hfit.containers server.id
          server := ⟨hnonneg, hupper⟩
          container := .inl rfl
          current := hids
          messages := hmessages }
      -- the index is reset before anything reads the new list
      have hreset : Sound { loadContainers answers server.id
          { d with selectedServerIndex := index, currentServerId := server.id } with
            selectedContainerIndex := 0
            selectedStackIndex := 0
            selectedImageIndex := 0
            selectedVolumeIndex := 0
            selectedNetworkIndex := 0 } := by
        rw [loadContainers]
        cases (answers.containers server.id).2 with
        | none =>
            exact { hchosen [] d.statusMessage d.shown (.inl rfl) with
              stack := rfl, image := rfl, volume := rfl, network := rfl }
        | some e =>
            exact { hchosen (bytes "Failed to load containers: " ++ e) []
                (bytes "Failed to load containers: " ++ e) (.inr rfl) with
              stack := rfl, image := rfl, volume := rfl, network := rfl }
      dsimp only
      split
      · exact hreset.setStatus _
      · exact hreset

theorem Sound.onLoad (h : d.Sound) (hfit : answers.Fit) : (d.onLoad answers).Sound := by
  have hloaded := h.loadServers hfit
  rw [DockerMenu.onLoad]
  split
  · exact hloaded.onServerSelected hfit _
  · split
    · exact hloaded.setError _
    · exact hloaded

theorem Sound.onRefresh (h : d.Sound) (hfit : answers.Fit) : (d.onRefresh answers).Sound := by
  have hloaded := h.loadServers hfit
  have hzero : (-2 ^ 63 : Int) ≤ 0 ∧ (0 : Int) ≤ 2 ^ 63 - 1 := by decide
  have hnone : Sound { d.loadServers answers with currentServerId := 0 } :=
    { hloaded with current := hzero }
  rw [DockerMenu.onRefresh]
  dsimp only
  split
  · exact hloaded.onServerSelected hfit _
  · split
    · exact hnone.setError _
    · exact hnone

theorem Sound.onResume (h : d.Sound) (hfit : answers.Fit) : (d.onResume answers).Sound := by
  have hrefreshed := h.onRefresh hfit
  rw [DockerMenu.onResume]
  split
  · exact hrefreshed.setStatus _
  · exact hrefreshed

/-! ## Commands and keys -/

theorem Sound.showTab (h : d.Sound) (tab : Tab) : (d.showTab tab).Sound := by
  have hswitched : (d.switchTab tab).Sound := by
    rw [switchTab]
    split
    · exact h
    · exact { h with messages := .inl rfl }
  exact hswitched.setStatus _

/-- The index is read where the list has something. -/
theorem Sound.onContainer (h : d.Sound) (what : Bytes) : (d.onContainer what).Sound := by
  rw [DockerMenu.onContainer]
  split
  · exact h
  · next hin =>
      have hnonneg : 0 ≤ d.selectedContainerIndex := by
        have hcontainer := h.container
        omega
      have hget : getAt d.containers d.selectedContainerIndex =
          some d.containers[d.selectedContainerIndex.toNat] :=
        getAt_eq_some.2 ⟨hnonneg, List.getElem?_eq_getElem (by omega)⟩
      rw [hget]
      exact h.setStatus _

theorem Sound.run (h : d.Sound) (hfit : answers.Fit) (c : Command) :
    (d.run answers c).2.Sound := by
  cases c with
  | tabNext => exact h.showTab _
  | tabPrev => exact h.showTab _
  | showTab tab => exact h.showTab tab
  | refresh => exact (h.onRefresh hfit).setStatus _
  | containerStart => exact h.onContainer _
  | containerStop => exact h.onContainer _
  | containerRestart => exact h.onContainer _
  | containerLogs => exact h.onContainer _
  | runHelloWorld =>
      rw [DockerMenu.run, onRunHelloWorld]
      split
      · exact h.setError _
      · dsimp only
        split
        · exact h.setStatus _
        · exact h.setError _

theorem Sound.moveUp (h : d.Sound) :
    (d.moveIndex fun _ i => if 0 < i then i - 1 else i).Sound := by
  have hcontainer := h.container
  rw [moveIndex]
  split
  · refine { h with container := ?_ }
    dsimp only
    split <;> omega
  · exact { h with image := by rw [h.image]; rfl }
  · exact { h with volume := by rw [h.volume]; rfl }
  · exact { h with network := by rw [h.network]; rfl }
  · exact { h with stack := by rw [h.stack]; rfl }

theorem Sound.moveDown (h : d.Sound) :
    (d.moveIndex fun size i => if i < size - 1 then i + 1 else i).Sound := by
  have hcontainer := h.container
  rw [moveIndex]
  split
  · refine { h with container := ?_ }
    dsimp only
    split <;> omega
  · exact { h with image := by rw [h.image]; rfl }
  · exact { h with volume := by rw [h.volume]; rfl }
  · exact { h with network := by rw [h.network]; rfl }
  · exact { h with stack := by rw [h.stack]; rfl }

theorem Sound.handleEvent (h : d.Sound) (hfit : answers.Fit) (event : Event) :
    (d.handleEvent answers event).2.Sound := by
  rw [DockerMenu.handleEvent.eq_def]
  split
  · split
    · exact h.onServerSelected hfit _
    · exact h
  · split
    · exact h.onServerSelected hfit _
    · exact h
  · exact h.moveUp
  · exact h.moveDown
  · exact h

/-! ## Saving and restoring -/

theorem nodup_savedNumbers (d : DockerMenu) : (d.savedNumbers.map Prod.fst).Nodup := by
  simp only [savedNumbers, List.map_cons, List.map_nil]
  decide +kernel

theorem find?_saveState {name : Bytes} {n : Int} (h : (name, n) ∈ d.savedNumbers) :
    d.saveState.find? name = some (decimal n) := by
  have hmap : (d.savedNumbers.foldl (fun m e => m.insert e.1 (decimal e.2)) OrdMap.empty) =
      (d.savedNumbers.map fun e => (e.1, decimal e.2)).foldl
        (fun m e => m.insert e.1 e.2) OrdMap.empty := by
    rw [List.foldl_map]
  have hother : ∀ e ∈ d.savedNumbers, e.1 ≠ bytes "container_filter" ∧
      e.1 ≠ bytes "show_stopped" := by
    simp only [savedNumbers, List.forall_mem_cons]
    refine ⟨?_, ?_, ?_, ?_, ?_, ?_, ?_, ?_, by simp⟩ <;> decide +kernel
  obtain ⟨hfilter, hstopped⟩ := hother _ h
  rw [saveState, hmap]
  have hnodup : ((d.savedNumbers.map fun e => (e.1, decimal e.2)).map Prod.fst).Nodup := by
    simpa [Function.comp_def] using d.nodup_savedNumbers
  rw [OrdMap.find?_insert, if_neg hstopped, OrdMap.find?_insert, if_neg hfilter,
    OrdMap.find?_foldl_insert hnodup,
    OrdMap.lookup_of_mem hnodup (List.mem_map.2 ⟨(name, n), h, rfl⟩), Option.some_or]

theorem restoreWith_same {α : Type*} {read : Bytes → Option α} {set : α → DockerMenu → DockerMenu}
    {key text : Bytes} {state : OrdMap Bytes Bytes} {value : α} (hfind : state.find? key = some text)
    (hread : read text = some value) (hset : set value d = d) :
    restoreWith read set key state d = some d := by
  rw [restoreWith, hfind]
  simp only [hread, Option.map_some, hset]

theorem Tab.ofIndex_index (tab : Tab) : Tab.ofIndex tab.index = tab := by
  cases tab <;> rfl

theorem Tab.index_lt (tab : Tab) : tab.index < 5 := by
  cases tab <;> decide

/-- What was saved is restored. -/
theorem Sound.restoreState (h : d.Sound) : d.restoreState d.saveState = some d := by
  have hnumber : ∀ (name : Bytes) (n : Int) (set : Int → DockerMenu → DockerMenu),
      (name, n) ∈ d.savedNumbers → -2 ^ 31 ≤ n → n ≤ 2 ^ 31 - 1 → set n d = d →
        restoreWith stoi set name d.saveState d = some d :=
    fun name n set hmem hlo hhi hset =>
      restoreWith_same (find?_saveState hmem) (stoi_decimal hlo hhi) hset
  have hcontainers := h.containers
  have hserver := hnumber (bytes "selected_server_index") d.selectedServerIndex
    (fun i d => { d with selectedServerIndex := i }) (by simp [savedNumbers])
    (by have hrange := h.server; omega) (by have hrange := h.server; omega) rfl
  have hcontainer := hnumber (bytes "selected_container_index") d.selectedContainerIndex
    (fun i d => { d with selectedContainerIndex := i }) (by simp [savedNumbers])
    (by have hrange := h.container; omega) (by have hrange := h.container; omega) rfl
  have hstack := hnumber (bytes "selected_stack_index") d.selectedStackIndex
    (fun i d => { d with selectedStackIndex := i }) (by simp [savedNumbers])
    (by rw [h.stack]; omega) (by rw [h.stack]; omega) rfl
  have himage := hnumber (bytes "selected_image_index") d.selectedImageIndex
    (fun i d => { d with selectedImageIndex := i }) (by simp [savedNumbers])
    (by rw [h.image]; omega) (by rw [h.image]; omega) rfl
  have hvolume := hnumber (bytes "selected_volume_index") d.selectedVolumeIndex
    (fun i d => { d with selectedVolumeIndex := i }) (by simp [savedNumbers])
    (by rw [h.volume]; omega) (by rw [h.volume]; omega) rfl
  have hnetwork := hnumber (bytes "selected_network_index") d.selectedNetworkIndex
    (fun i d => { d with selectedNetworkIndex := i }) (by simp [savedNumbers])
    (by rw [h.network]; omega) (by rw [h.network]; omega) rfl
  have htab := hnumber (bytes "current_tab") d.currentTab.index
    (fun i d => { d with currentTab := .ofIndex i }) (by simp [savedNumbers])
    (by omega) (by have hrange := d.currentTab.index_lt; omega) (by rw [Tab.ofIndex_index])
  have hcurrent : restoreWith stoll (fun i d => { d with currentServerId := i })
      (bytes "current_server_id") d.saveState d = some d := by
    refine restoreWith_same (find?_saveState (n := d.currentServerId) ?_)
      (parseInteger_decimal h.current.1 h.current.2) rfl
    simp [savedNumbers]
  have hfilter : restoreWith some (fun s d => { d with containerFilter := s })
      (bytes "container_filter") d.saveState d = some d := by
    refine restoreWith_same (show _ = some d.containerFilter from ?_) rfl rfl
    have hne : ¬ bytes "container_filter" = bytes "show_stopped" := by decide +kernel
    simp [saveState, hne]
  have hstopped : restoreWith some (fun s d => { d with showStoppedContainers := s = bytes "1" })
      (bytes "show_stopped") d.saveState d = some d := by
    have hflag : decide ((if d.showStoppedContainers then bytes "1" else bytes "0") = bytes "1") =
        d.showStoppedContainers := by
      cases d.showStoppedContainers <;> decide +kernel
    refine restoreWith_same (by rw [saveState, OrdMap.find?_insert, if_pos rfl]) rfl ?_
    simp only [hflag]
  simp only [DockerMenu.restoreState, hserver, hcontainer, hstack, himage, hvolume, hnetwork,
    hcurrent, htab, hfilter, hstopped, Option.bind_eq_bind, Option.bind_some]

end DockerMenu

/-- What a menu may show. -/
def Screen.Right : Screen → Prop
  | .main index => 0 ≤ index ∧ index ≤ 4
  | .docker d => d.Sound

theorem Screen.right_made (menuId : Bytes) : (Screen.made menuId).Right := by
  rw [Screen.made]
  split
  · exact DockerMenu.sound_new
  · exact ⟨le_refl 0, by decide⟩

namespace TuiApp

variable {a b : TuiApp} {answers : DockerAnswers} {menuId : Bytes}

def AllRight (a : TuiApp) : Prop := ∀ k, (a.screens k).Right

theorem AllRight.congr (h : a.AllRight) (hscreens : b.screens = a.screens) : b.AllRight := by
  intro k
  rw [hscreens]
  exact h k

theorem AllRight.setScreen (h : a.AllRight) (k : Nat) {screen : Screen} (hscreen : screen.Right) :
    (a.setScreen k screen).AllRight := by
  intro j
  by_cases hj : j = k
  · subst hj
    simpa [TuiApp.setScreen] using hscreen
  · simpa [TuiApp.setScreen, hj] using h j

theorem AllRight.onDocker {α : Type} (h : a.AllRight) {k : Nat} {d : DockerMenu}
    {f : DockerMenu → α × DockerMenu} (hd : d.Sound)
    (hf : ∀ d, d.Sound → (f d).2.Sound) : (a.onDocker k d f).2.AllRight := by
  have hdone : (f { d with shown := a.status }).2.Sound := hf _ (hd.messages_of hd.messages)
  have hright : (Screen.docker (f { d with shown := a.status }).2).Right := hdone
  exact (h.setScreen k hright).congr rfl

theorem AllRight.activateDocker (h : a.AllRight) {k : Nat} {d : DockerMenu} (hd : d.Sound)
    {f : DockerMenu → DockerMenu} (hf : ∀ d, d.Sound → (f d).Sound) :
    (a.activateDocker k d f).AllRight := by
  have hregistered : (d.registerKeyBindings a.keys).1.Sound := by
    rw [DockerMenu.registerKeyBindings]
    split
    · exact { hd with }
    · exact { hd with }
  exact (h.congr (b := { a with keys := (d.registerKeyBindings a.keys).2 }) rfl).onDocker
    hregistered hf

/-- A call on a menu, but for one to restore its state. -/
theorem AllRight.callMenu (h : a.AllRight) (hfit : answers.Fit) {entry : Nat × MenuCall}
    (hcall : entry.2 ≠ .restoreState) : (a.callMenu answers menuId entry).AllRight := by
  have hdocker : ∀ {k d}, a.screens k = .docker d → d.Sound := by
    intro k d hd
    have hright := h k
    rw [hd] at hright
    exact hright
  rw [TuiApp.callMenu]
  split
  · exact h.setScreen _ (Screen.right_made menuId)
  · next hscreen =>
      obtain ⟨-, hscreens, -⟩ := beside_registerDockerCommands a
      exact (h.congr hscreens).activateDocker (hdocker hscreen) fun d hd => hd.onLoad hfit
  · next hscreen =>
      have hright : ∀ d', d'.Sound →
          (Screen.docker (DockerMenu.unregisterKeyBindings d' a.keys).1).Right :=
        fun d' hd' => { hd' with }
      exact (h.setScreen _ (hright _ (hdocker hscreen))).congr rfl
  · next hscreen => exact h.activateDocker (hdocker hscreen) fun d hd => hd.onResume hfit
  · next hrestore _ => exact absurd hrestore hcall
  · exact h

/-! ## The stack -/

theorem screens_callMenu {entry : Nat × MenuCall} {k : Nat} (h : entry.1 ≠ k) (a : TuiApp) :
    (a.callMenu answers menuId entry).screens k = a.screens k := by
  have hk : ¬ k = entry.1 := Ne.symm h
  have hset : ∀ (screen : Screen) (b : TuiApp), (b.setScreen entry.1 screen).screens k = b.screens k :=
    fun screen b => if_neg hk
  obtain ⟨-, hscreens, -⟩ := beside_registerDockerCommands a
  rw [TuiApp.callMenu]
  split
  · exact hset _ a
  · rw [← hscreens]
    exact hset _ _
  · exact hset _ a
  · exact hset _ _
  · split
    · rfl
    · exact hset _ a
  · rfl

theorem screens_foldl {entries : List (Nat × MenuCall)} {k : Nat} (h : ∀ e ∈ entries, e.1 ≠ k)
    (a : TuiApp) : (entries.foldl (callMenu answers menuId) a).screens k = a.screens k := by
  induction entries generalizing a with
  | nil => rfl
  | cons e entries ih =>
      obtain ⟨hfirst, hrest⟩ := List.forall_mem_cons.1 h
      rw [List.foldl_cons, ih hrest, screens_callMenu hfirst]

/-- A menu that is left has the same to save. -/
theorem saveState_callMenu {entry : Nat × MenuCall} (h : entry.2 = .saveState ∨ entry.2 = .onUnload)
    (a : TuiApp) (k : Nat) :
    ((a.callMenu answers menuId entry).screens k).saveState = (a.screens k).saveState := by
  obtain ⟨j, call⟩ := entry
  rcases h with rfl | rfl
  · rfl
  · rw [TuiApp.callMenu]
    cases hscreen : a.screens j with
    | main index => rfl
    | docker d =>
        by_cases hk : k = j
        · subst hk
          simp only [TuiApp.setScreen, if_pos, hscreen]
          rfl
        · simp only [TuiApp.setScreen, if_neg hk]

theorem saveState_leaving (stack : List MenuStackEntry) (a : TuiApp) (k : Nat) :
    (((MenuManager.leaving stack).foldl (callMenu answers menuId) a).screens k).saveState =
      (a.screens k).saveState := by
  cases stack with
  | nil => rfl
  | cons current rest =>
      rw [MenuManager.leaving]
      split
      · rw [List.foldl_append, List.foldl_cons, List.foldl_nil, List.foldl_cons, List.foldl_nil,
          saveState_callMenu (.inr rfl), saveState_callMenu (.inl rfl)]
      · rw [List.nil_append, List.foldl_cons, List.foldl_nil, saveState_callMenu (.inr rfl)]

theorem AllRight.foldl (h : a.AllRight) (hfit : answers.Fit) {entries : List (Nat × MenuCall)}
    (hentries : ∀ e ∈ entries, e.2 ≠ .restoreState) :
    (entries.foldl (TuiApp.callMenu answers menuId) a).AllRight := by
  induction entries generalizing a with
  | nil => exact h
  | cons e entries ih =>
      obtain ⟨hfirst, hrest⟩ := List.forall_mem_cons.1 hentries
      exact ih (h.callMenu hfit hfirst) hrest

theorem mem_leaving {stack : List MenuStackEntry} {e : Nat × MenuCall}
    (h : e ∈ MenuManager.leaving stack) :
    e.2 ≠ .restoreState ∧ ∃ current, stack.head? = some current ∧ e.1 = current.menu.serial := by
  cases stack with
  | nil => exact absurd h List.not_mem_nil
  | cons current rest =>
      have hcall : e = (current.menu.serial, .saveState) ∨
          e = (current.menu.serial, .onUnload) := by
        rw [MenuManager.leaving] at h
        split at h
        · simpa using h
        · exact .inr (by simpa using h)
      rcases hcall with rfl | rfl
      · exact ⟨MenuCall.noConfusion, current, rfl, rfl⟩
      · exact ⟨MenuCall.noConfusion, current, rfl, rfl⟩

theorem setScreen_same {k : Nat} {screen : Screen} (h : a.screens k = screen) :
    a.setScreen k screen = a := by
  have hscreens : (fun j => if j = k then screen else a.screens j) = a.screens := by
    funext j
    by_cases hj : j = k
    · subst hj
      rw [if_pos rfl, h]
    · rw [if_neg hj]
  rw [TuiApp.setScreen, hscreens]

/-- A menu that saved what it shows is restored to that. -/
theorem callMenu_restoreState {top : MenuStackEntry} {below : List MenuStackEntry}
    (hstack : a.menus.stack = top :: below) (hright : (a.screens top.menu.serial).Right)
    (hsaved : top.savedState = (a.screens top.menu.serial).saveState) :
    a.callMenu answers menuId (top.menu.serial, .restoreState) = a := by
  rw [TuiApp.callMenu]
  cases hscreen : a.screens top.menu.serial with
  | main index => rfl
  | docker d =>
      rw [hscreen] at hright hsaved
      have hrestored : d.restoreState top.savedState = some d := by
        rw [hsaved]
        exact DockerMenu.Sound.restoreState hright
      simp only [hstack, hrestored, Option.getD_some]
      exact setScreen_same hscreen

/-- The menus show what they may, and those that are covered have saved it. -/
structure Kept (a : TuiApp) : Prop where
  tidy : a.menus.Tidy
  right : a.AllRight
  preserve : ∀ e ∈ a.menus.stack, e.menu.preserveState = true
  saved : ∀ e ∈ a.menus.stack.tail, e.savedState = (a.screens e.menu.serial).saveState

/-- The stack before a call on the manager: the current menu has its state at hand. -/
theorem stack_readyMenus {top : MenuStackEntry} {below : List MenuStackEntry}
    (h : a.menus.stack = top :: below) :
    a.readyMenus.stack =
      { top with menu.state := (a.screens top.menu.serial).saveState } :: below := by
  simp only [readyMenus, h]

theorem Kept.savedTop (h : a.Kept) {e : MenuStackEntry}
    (he : e ∈ MenuManager.savedTop a.readyMenus.stack) :
    e.menu.serial ∈ a.menus.serials ∧ e.menu.preserveState = true ∧
      e.savedState = (a.screens e.menu.serial).saveState := by
  cases hstack : a.menus.stack with
  | nil =>
      rw [readyMenus, hstack] at he
      exact absurd he List.not_mem_nil
  | cons top below =>
      have htop := h.preserve top (by rw [hstack]; exact List.mem_cons_self)
      rw [stack_readyMenus hstack, MenuManager.savedTop] at he
      simp only [htop, if_true] at he
      rw [MenuManager.serials, hstack]
      rcases List.mem_cons.1 he with rfl | he
      · exact ⟨List.mem_cons_self, rfl, rfl⟩
      · refine ⟨List.mem_map.2 ⟨e, List.mem_cons_of_mem _ he, rfl⟩, ?_, ?_⟩
        · exact h.preserve e (by rw [hstack]; exact List.mem_cons_of_mem _ he)
        · exact h.saved e (by rw [hstack]; exact he)

theorem tidy_readyMenus (h : a.menus.Tidy) : a.readyMenus.Tidy :=
  ⟨by rw [serials_readyMenus]; exact h.nodup, by rw [serials_readyMenus]; exact h.built, h.known⟩

theorem stack_of_readyMenus {current : MenuStackEntry} {rest : List MenuStackEntry}
    (h : a.readyMenus.stack = current :: rest) :
    ∃ top, a.menus.stack = top :: rest ∧ top.menu.serial = current.menu.serial := by
  cases hstack : a.menus.stack with
  | nil => simp [readyMenus, hstack] at h
  | cons top below =>
      rw [stack_readyMenus hstack] at h
      obtain ⟨rfl, rfl⟩ := List.cons.inj h
      exact ⟨top, rfl, rfl⟩

/-- The menu that is come back to is as it was, until it is told. -/
theorem foldl_returning {top : MenuStackEntry} {below : List MenuStackEntry}
    (hstack : a.menus.stack = top :: below) (hright : (a.screens top.menu.serial).Right)
    (hsaved : top.savedState = (a.screens top.menu.serial).saveState) :
    (MenuManager.returning top).foldl (callMenu answers menuId) a =
      a.callMenu answers menuId (top.menu.serial, .onResume) := by
  rw [MenuManager.returning]
  split
  · rw [List.singleton_append, List.foldl_cons, callMenu_restoreState hstack hright hsaved]
    rfl
  · rfl

/-- Before a menu is come back to. -/
theorem Kept.covered (h : a.Kept) (answers : DockerAnswers) (menuId : Bytes) {current previous : MenuStackEntry}
    {rest : List MenuStackEntry} (hstack : a.menus.stack = current :: previous :: rest)
    (hscreens : b.screens = a.screens) :
    let left := (MenuManager.leaving a.readyMenus.stack).foldl (callMenu answers menuId) b
    left.screens previous.menu.serial = a.screens previous.menu.serial ∧
      previous.savedState = (a.screens previous.menu.serial).saveState := by
  refine ⟨?_, h.saved previous (by rw [hstack]; exact List.mem_cons_self)⟩
  rw [← hscreens]
  refine screens_foldl (fun e he heq => ?_) b
  obtain ⟨-, top, htop, hserial⟩ := mem_leaving he
  rw [stack_readyMenus hstack, List.head?_cons, Option.some.injEq] at htop
  have hnodup := h.tidy.nodup
  rw [MenuManager.serials, hstack, List.map_cons, List.map_cons, List.nodup_cons] at hnodup
  have hserial' : e.1 = current.menu.serial := by rw [hserial, ← htop]
  exact hnodup.1 (by rw [← hserial', heq]; exact List.mem_cons_self)

theorem Kept.right_moved (h : a.Kept) (hfit : answers.Fit) {calls : List (Nat × MenuCall)}
    (hmoved : MenuManager.Moved true a.readyMenus b.menus calls) (hscreens : b.screens = a.screens) :
    (calls.foldl (callMenu answers menuId) b).AllRight := by
  have hright : b.AllRight := h.right.congr hscreens
  cases hmoved with
  | stayed _ _ => exact hright
  | loaded _ _ _ _ =>
      refine hright.foldl hfit fun e he => ?_
      rcases List.mem_append.1 he with he | he
      · exact (mem_leaving he).1
      · have hcases : e = (a.readyMenus.built, .build) ∨ e = (a.readyMenus.built, .onLoad) := by
          simpa using he
        rcases hcases with rfl | rfl
        · exact MenuCall.noConfusion
        · exact MenuCall.noConfusion
  | @wentBack current previous rest hstack hstack' _ =>
      obtain ⟨top, htop, -⟩ := stack_of_readyMenus hstack
      obtain ⟨hsame, hsaved⟩ := h.covered answers menuId htop hscreens
      have hleft : ((MenuManager.leaving a.readyMenus.stack).foldl
          (callMenu answers menuId) b).AllRight :=
        hright.foldl hfit fun e he => (mem_leaving he).1
      rw [List.foldl_append, foldl_returning (by rw [menus_foldl, hstack']) (hleft _)
        (by rw [hsame, hsaved])]
      exact hleft.callMenu hfit MenuCall.noConfusion
  | cleared _ _ =>
      refine hright.foldl hfit fun e he => ?_
      obtain ⟨k, -, rfl⟩ := List.mem_map.1 he
      exact MenuCall.noConfusion

/-- What covered menus have saved, after a call on the manager. -/
theorem Kept.saved_moved (h : a.Kept) (answers : DockerAnswers) (menuId : Bytes)
    {calls : List (Nat × MenuCall)}
    (hmoved : MenuManager.Moved true a.readyMenus b.menus calls) (hscreens : b.screens = a.screens) :
    (∀ e ∈ b.menus.stack, e.menu.preserveState = true) ∧
      ∀ e ∈ b.menus.stack.tail, e.savedState =
        ((calls.foldl (callMenu answers menuId) b).screens e.menu.serial).saveState := by
  cases hmoved with
  | stayed hstack _ =>
      cases hbefore : a.menus.stack with
      | nil =>
          rw [hstack, readyMenus, hbefore]
          simp
      | cons top below =>
          have hpreserve := h.preserve
          have hsaved := h.saved
          rw [hbefore] at hpreserve hsaved
          rw [hstack, stack_readyMenus hbefore]
          refine ⟨?_, fun e he => ?_⟩
          · obtain ⟨htop, hbelow⟩ := List.forall_mem_cons.1 hpreserve
            exact List.forall_mem_cons.2 ⟨htop, hbelow⟩
          · rw [List.foldl_nil, hscreens]
            exact hsaved e he
  | loaded id state hstack _ =>
      rw [hstack]
      refine ⟨List.forall_mem_cons.2 ⟨rfl, fun e he => (h.savedTop he).2.1⟩, fun e he => ?_⟩
      obtain ⟨hserial, -, hsaved⟩ := h.savedTop he
      have hnew : a.readyMenus.built ≠ e.menu.serial := (h.tidy.built _ hserial).ne'
      rw [List.foldl_append, screens_foldl (by simpa using hnew), saveState_leaving, hscreens]
      exact hsaved
  | @wentBack current previous rest hstack hstack' _ =>
      obtain ⟨top, htop, -⟩ := stack_of_readyMenus hstack
      have hpreserve := h.preserve
      have hsaved := h.saved
      have hnodup := h.tidy.nodup
      rw [htop] at hpreserve hsaved
      rw [MenuManager.serials, htop] at hnodup
      rw [hstack']
      refine ⟨fun e he => hpreserve e (List.mem_cons_of_mem _ he), fun e he => ?_⟩
      have hother : ∀ entry ∈ MenuManager.returning previous, entry.1 ≠ e.menu.serial := by
        intro entry hentry heq
        have hprevious : entry.1 = previous.menu.serial := by
          rw [MenuManager.returning] at hentry
          split at hentry
          · rcases List.mem_cons.1 hentry with rfl | hentry
            · rfl
            · rw [List.mem_singleton.1 hentry]
          · rw [List.mem_singleton.1 hentry]
        rw [List.map_cons, List.map_cons, List.nodup_cons, List.nodup_cons] at hnodup
        exact hnodup.2.1 (List.mem_map.2 ⟨e, he, by rw [← heq, hprevious]⟩)
      rw [List.foldl_append, screens_foldl hother, saveState_leaving, hscreens]
      exact hsaved e (List.mem_cons_of_mem _ he)
  | cleared hstack _ =>
      rw [hstack]
      simp

theorem Kept.callMenus (h : a.Kept) (hfit : answers.Fit) {c : MenuManager.Call}
    (hcall : CallFor menuId c) : (a.callMenus answers menuId c).2.Kept := by
  obtain ⟨calls, hmoved, heq⟩ := callMenus_moved hcall answers a
  rw [heq]
  have hmenus : ∀ b : TuiApp, (calls.foldl (TuiApp.callMenu answers menuId) b).menus = b.menus :=
    fun b => menus_foldl calls b
  obtain ⟨hpreserve, hsaved⟩ := h.saved_moved answers menuId
    (b := { a with
      menus := (a.readyMenus.perform c).2
      modes := (a.readyMenus.perform c).2.context.getD a.modes }) hmoved rfl
  refine ⟨?_, h.right_moved hfit hmoved rfl, ?_, ?_⟩
  · rw [hmenus]
    exact MenuManager.tidy_step a.readyMenus c (tidy_readyMenus h.tidy)
  · rw [hmenus]
    exact hpreserve
  · rw [hmenus]
    exact hsaved

/-! ## Runs -/

theorem Kept.congr (h : a.Kept) (hmenus : b.menus = a.menus) (hscreens : b.screens = a.screens) :
    b.Kept := by
  refine ⟨hmenus ▸ h.tidy, h.right.congr hscreens, hmenus ▸ h.preserve, ?_⟩
  rw [hmenus, hscreens]
  exact h.saved

/-- The current menu shows something else. -/
theorem Kept.setTop (h : a.Kept) {top : MenuStackEntry} {below : List MenuStackEntry}
    (hstack : a.menus.stack = top :: below) {screen : Screen} (hscreen : screen.Right) :
    (a.setScreen top.menu.serial screen).Kept := by
  have hnodup := h.tidy.nodup
  rw [MenuManager.serials, hstack, List.map_cons, List.nodup_cons] at hnodup
  have hsaved := h.saved
  rw [hstack] at hsaved
  have hmenus : (a.setScreen top.menu.serial screen).menus = a.menus := rfl
  refine ⟨h.tidy, h.right.setScreen _ hscreen, h.preserve, ?_⟩
  rw [hmenus, hstack]
  intro e he
  have hother : ¬ e.menu.serial = top.menu.serial :=
    fun heq => hnodup.1 (List.mem_map.2 ⟨e, he, heq⟩)
  simp only [TuiApp.setScreen, if_neg hother]
  exact hsaved e he

theorem Kept.chain (h : a.Kept) (hfit : answers.Fit) (hchain : Chain answers a b) : b.Kept := by
  induction hchain with
  | refl => exact h
  | beside _ hbeside ih => exact ih.congr hbeside.menus hbeside.screens
  | @main b top _ _ _ _ hstack hscreen hindex ih =>
      have hright := ih.right top.menu.serial
      rw [hscreen] at hright
      exact ih.setTop hstack (hindex hright)
  | @docker b top _ d f _ hstack hscreen hdoes ih =>
      have hright := ih.right top.menu.serial
      rw [hscreen] at hright
      have hdone : (f { d with shown := b.status }).2.Sound := by
        have hd : d.Sound := hright
        cases hdoes with
        | command c => exact (hd.messages_of hd.messages).run hfit c
        | event e => exact (hd.messages_of hd.messages).handleEvent hfit e
      have hright : (Screen.docker (f { d with shown := b.status }).2).Right := hdone
      exact (ih.setTop hstack hright).congr rfl rfl
  | menus _ hcall ih => exact ih.callMenus hfit hcall

theorem kept_run (store : Bool) (inputs : List Input) (hfit : ∀ i ∈ inputs, i.1.docker.Fit) :
    (Runs.run step (initial store) inputs).Kept := by
  refine always_of_chain (P := Kept) (Q := fun s => s.docker.Fit) ?_
    (fun s a b hs h hchain => h.chain hs hchain) inputs hfit
  refine ⟨⟨List.nodup_nil, ?_, ?_⟩, fun k => ⟨le_refl 0, by decide⟩, ?_, ?_⟩
  · exact fun k hk => absurd hk List.not_mem_nil
  · exact fun entry he => absurd he List.not_mem_nil
  · exact fun e he => absurd he List.not_mem_nil
  · exact fun e he => absurd he List.not_mem_nil

/-- In every run a dashboard reads nothing outside of its lists and does not show an error and a
status at once, and what a covered one has saved restores it to what it is. -/
theorem dashboards_kept (store : Bool) (inputs : List Input)
    (hfit : ∀ i ∈ inputs, i.1.docker.Fit) :
    let a := Runs.run step (initial store) inputs
    (∀ k d, a.screens k = .docker d → d.Sound) ∧
      ∀ e ∈ a.menus.stack.tail, ∀ d, a.screens e.menu.serial = .docker d →
        d.restoreState e.savedState = some d := by
  intro a
  have hkept : a.Kept := kept_run store inputs hfit
  have hsound : ∀ k d, a.screens k = .docker d → d.Sound := by
    intro k d hd
    have hright := hkept.right k
    rw [hd] at hright
    exact hright
  refine ⟨hsound, fun e he d hd => ?_⟩
  rw [hkept.saved e he, hd]
  exact (hsound _ d hd).restoreState

theorem fit_calm : calm.docker.Fit :=
  ⟨by decide, fun s hs => absurd hs List.not_mem_nil,
    fun id => Nat.two_pow_pos 31⟩

/-- The command that opens a dashboard. -/
def openDashboard : List Input := typeText ":load docker" ++ [(calm, .key .returnKey)]

theorem fit_openDashboard : ∀ i ∈ openDashboard ++ openDashboard, i.1.docker.Fit := by
  have hcalm : ∀ i ∈ openDashboard, i.1 = calm := by
    intro i hi
    rcases List.mem_append.1 hi with hi | hi
    · obtain ⟨c, -, rfl⟩ := List.mem_map.1 hi
      rfl
    · rw [List.mem_singleton.1 hi]
  intro i hi
  rcases List.mem_append.1 hi with hi | hi
  · rw [hcalm i hi]
    exact fit_calm
  · rw [hcalm i hi]
    exact fit_calm

theorem serials_openDashboard :
    (Runs.run step (initial true) (openDashboard ++ openDashboard)).menus.serials = [1, 0] ∧
      ((Runs.run step (initial true) (openDashboard ++ openDashboard)).screens 0).bindings =
        some ([], false) := by
  decide +kernel

theorem dashboards_kept_two :
    (Runs.run step (initial true) (openDashboard ++ openDashboard)).menus.serials = [1, 0] ∧
      ∀ e ∈ (Runs.run step (initial true) (openDashboard ++ openDashboard)).menus.stack.tail,
        ∀ d, (Runs.run step (initial true) (openDashboard ++ openDashboard)).screens
          e.menu.serial = .docker d → d.restoreState e.savedState = some d :=
  ⟨serials_openDashboard.1,
    (dashboards_kept true (openDashboard ++ openDashboard) fit_openDashboard).2⟩

end TuiApp

/-! ## Going back -/

namespace DockerMenu

/-- A dashboard that is current again, before its lists are read. -/
def uncovered (status : Bytes) (d : DockerMenu) : DockerMenu :=
  { d with activeKeyBindings := keyBindings, keyBindingsActive := true, shown := status }

theorem servers_failed (what : Bytes) (error : Option Bytes) (d : DockerMenu) :
    (failed what error d).servers = d.servers ∧
      (failed what error d).selectedServerIndex = d.selectedServerIndex := by
  cases error with
  | none => exact ⟨rfl, rfl⟩
  | some e => exact ⟨rfl, rfl⟩

/-- A server of the list is selected, and nothing else. -/
theorem selectedServerIndex_onServerSelected (answers : DockerAnswers) (index : Int)
    (d : DockerMenu) :
    (d.onServerSelected answers index).selectedServerIndex =
      if 0 ≤ index ∧ index < d.servers.length then index else d.selectedServerIndex := by
  rw [onServerSelected]
  cases hget : getAt d.servers index with
  | none =>
      have hout : ¬ (0 ≤ index ∧ index < d.servers.length) := by
        rintro ⟨hnonneg, hlt⟩
        rw [getAt, if_neg (by omega), List.getElem?_eq_none_iff] at hget
        omega
      rw [if_neg hout]
  | some server =>
      obtain ⟨hnonneg, hin⟩ := getAt_eq_some.1 hget
      have hlt := (List.getElem?_eq_some_iff.1 hin).1
      have hkept := (servers_failed (bytes "Failed to load containers: ")
        (answers.containers server.id).2
        { d with
          selectedServerIndex := index
          currentServerId := server.id
          containers := (answers.containers server.id).1
          errorMessage := [] }).2
      rw [if_pos ⟨hnonneg, by omega⟩]
      dsimp only
      split
      · exact hkept
      · exact hkept

theorem selectedServerIndex_onResume (answers : DockerAnswers) (d : DockerMenu)
    (h : 0 ≤ d.selectedServerIndex ∧ d.selectedServerIndex < answers.servers.1.length) :
    (d.onResume answers).selectedServerIndex = d.selectedServerIndex := by
  obtain ⟨hservers, hindex⟩ := servers_failed (bytes "Failed to load servers: ")
    answers.servers.2 { d with servers := answers.servers.1, errorMessage := [] }
  have hloaded : (d.loadServers answers).servers = answers.servers.1 ∧
      (d.loadServers answers).selectedServerIndex = d.selectedServerIndex := ⟨hservers, hindex⟩
  have hsome : (d.loadServers answers).servers ≠ [] := by
    rw [hloaded.1]
    intro hnil
    rw [hnil, List.length_nil] at h
    omega
  have hselected : (d.onRefresh answers).selectedServerIndex = d.selectedServerIndex := by
    rw [onRefresh]
    dsimp only
    rw [if_pos hsome, selectServer, hloaded.1, hloaded.2, if_neg (by omega),
      selectedServerIndex_onServerSelected, hloaded.1, if_pos h]
  rw [onResume]
  split
  · exact hselected
  · exact hselected

/-- What was chosen is still chosen. -/
structure SameChoice (answers : DockerAnswers) (d d' : DockerMenu) : Prop where
  tab : d'.currentTab = d.currentTab
  filter : d'.containerFilter = d.containerFilter
  stopped : d'.showStoppedContainers = d.showStoppedContainers
  server : d.selectedServerIndex < answers.servers.1.length →
    d'.selectedServerIndex = d.selectedServerIndex

theorem Sound.sameChoice_onResume {d : DockerMenu} (h : d.Sound) (answers : DockerAnswers) :
    SameChoice answers d (d.onResume answers) := by
  have hreread := reread_onResume answers d
  exact ⟨hreread.tab, hreread.filter, hreread.stopped,
    fun hlt => selectedServerIndex_onResume answers d ⟨h.server.1, hlt⟩⟩

end DockerMenu

namespace TuiApp

theorem status_leaving (answers : DockerAnswers) (menuId : Bytes) (stack : List MenuStackEntry)
    (a : TuiApp) :
    ((MenuManager.leaving stack).foldl (callMenu answers menuId) a).status = a.status := by
  have hunload : ∀ k, (a.callMenu answers menuId (k, .onUnload)).status = a.status := by
    intro k
    rw [TuiApp.callMenu]
    cases a.screens k with
    | main index => rfl
    | docker d => rfl
  cases stack with
  | nil => rfl
  | cons current rest =>
      rw [MenuManager.leaving]
      split
      · exact hunload _
      · exact hunload _

/-- A dashboard is told that it is current again. -/
theorem screens_onResume {a : TuiApp} {k : Nat} {d : DockerMenu} (h : a.screens k = .docker d)
    (answers : DockerAnswers) (menuId : Bytes) :
    (a.callMenu answers menuId (k, .onResume)).screens k =
      .docker ((d.uncovered a.status).onResume answers) := by
  have hregistered : (d.registerKeyBindings a.keys).1 =
      { d with activeKeyBindings := DockerMenu.keyBindings, keyBindingsActive := true } := by
    rw [DockerMenu.registerKeyBindings]
    split
    · rfl
    · rfl
  have hcall : a.callMenu answers menuId (k, .onResume) =
      a.activateDocker k d fun d => d.onResume answers := by
    simp only [TuiApp.callMenu, h]
  rw [hcall, TuiApp.activateDocker, hregistered, TuiApp.onDocker]
  exact if_pos rfl

/-- `back` shows a dashboard as it was left, with its lists read again. -/
theorem back_shows_menu_as_left (store : Bool) (inputs : List Input)
    (hfit : ∀ i ∈ inputs, i.1.docker.Fit) {current previous : MenuStackEntry}
    {rest : List MenuStackEntry}
    (hstack : (Runs.run step (initial store) inputs).menus.stack = current :: previous :: rest)
    {d : DockerMenu}
    (hd : (Runs.run step (initial store) inputs).screens previous.menu.serial = .docker d)
    (answers : DockerAnswers) :
    let a := Runs.run step (initial store) inputs
    let d' := (d.uncovered a.status).onResume answers
    (a.callMenus answers [] .back).2.menus.stack = previous :: rest ∧
      (a.callMenus answers [] .back).2.screens previous.menu.serial = .docker d' ∧
      DockerMenu.SameChoice answers d d' := by
  intro a d'
  have hkept : a.Kept := kept_run store inputs hfit
  have hsound : d.Sound := by
    have hright := hkept.right previous.menu.serial
    rw [hd] at hright
    exact hright
  obtain ⟨hstack', -, hlog⟩ := MenuManager.back_of_stack (stack_readyMenus hstack)
  set b : TuiApp := { a with
    menus := a.readyMenus.back.2
    modes := a.readyMenus.back.2.context.getD a.modes } with hb
  set left := (MenuManager.leaving a.readyMenus.stack).foldl (callMenu answers []) b with hleft
  obtain ⟨hsame, hsaved⟩ := hkept.covered answers [] hstack (b := b) rfl
  have hscreen : left.screens previous.menu.serial = .docker d := hsame.trans hd
  have hmenus : left.menus.stack = previous :: rest := by rw [hleft, menus_foldl, hb, hstack']
  have heq : (a.callMenus answers [] .back).2 =
      left.callMenu answers [] (previous.menu.serial, .onResume) := by
    have hcalls : (a.readyMenus.perform .back).2.log.drop a.menus.log.length =
        MenuManager.leaving a.readyMenus.stack ++ MenuManager.returning previous := by
      have hlog' : (a.readyMenus.perform .back).2.log = a.menus.log ++
          (MenuManager.leaving a.readyMenus.stack ++ MenuManager.returning previous) := hlog
      rw [hlog', List.drop_left' rfl]
    rw [TuiApp.callMenus, hcalls]
    dsimp only
    rw [List.foldl_append]
    have hright : (left.screens previous.menu.serial).Right := by
      rw [hscreen]
      exact hsound
    exact foldl_returning (a := left) hmenus hright (by rw [hscreen, hsaved, hd])
  have hstatus : left.status = a.status := status_leaving answers [] _ b
  rw [heq]
  refine ⟨by rw [menus_callMenu, hmenus], ?_, ?_⟩
  · rw [screens_onResume hscreen, hstatus]
  · obtain ⟨htab, hfilter, hstopped, hserver⟩ :=
      DockerMenu.Sound.sameChoice_onResume (d := d.uncovered a.status) { hsound with } answers
    exact ⟨htab, hfilter, hstopped, hserver⟩

theorem back_shows_first_dashboard :
    ∃ d d', (Runs.run step (initial true) (openDashboard ++ openDashboard)).screens 0 = .docker d ∧
      ((Runs.run step (initial true) (openDashboard ++ openDashboard)).callMenus calm.docker []
        .back).2.screens 0 = .docker d' ∧ DockerMenu.SameChoice calm.docker d d' := by
  obtain ⟨hserials, hbindings⟩ := serials_openDashboard
  have hback := @back_shows_menu_as_left true (openDashboard ++ openDashboard) fit_openDashboard
  generalize Runs.run step (initial true) (openDashboard ++ openDashboard) = a at *
  cases hscreen : a.screens 0 with
  | main index =>
      rw [hscreen] at hbindings
      cases hbindings
  | docker d =>
      rw [MenuManager.serials] at hserials
      rcases hstack : a.menus.stack with _ | ⟨current, _ | ⟨previous, rest⟩⟩
      · simp [hstack] at hserials
      · simp [hstack] at hserials
      · have hprevious : previous.menu.serial = 0 := by
          rw [hstack] at hserials
          exact (List.cons.inj (List.cons.inj hserials).2).1
        obtain ⟨-, hshown, hchoice⟩ := hback hstack (by rw [hprevious]; exact hscreen) calm.docker
        rw [hprevious] at hshown
        exact ⟨d, _, rfl, hshown, hchoice⟩

end TuiApp

end Nazg.Tui

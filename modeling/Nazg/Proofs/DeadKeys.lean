import Nazg.Proofs.ShellInput

/-!
# Bindings that no key reaches

Ctrl-B, Escape and the colon are taken before any binding is looked up, in every mode. So what
is bound to them makes no difference in any run, the defaults among them: two applications that
differ in nothing else go through the same states.
-/

namespace Nazg.Tui

open Lib

namespace KeyManager

/-- The keys that are never looked up. -/
def deadKeys : List Bytes := [bytes "Ctrl-B", bytes "Escape", bytes ":"]

/-- The same bindings, but for those keys. -/
def Agree (m m' : KeyManager) : Prop :=
  ∀ place : Mode × Bool × Bytes, place.2.2 ∉ deadKeys → m.at? place = m'.at? place

theorem Agree.bindAll {m m' : KeyManager} (h : m.Agree m') (bindings : List KeyBinding) :
    (m.bindAll bindings).Agree (m'.bindAll bindings) := by
  intro place hplace
  rw [at?_bindAll, at?_bindAll, h place hplace]

theorem Agree.unbindAll {m m' : KeyManager} (h : m.Agree m') (bindings : List KeyBinding) :
    (m.unbindAll bindings).Agree (m'.unbindAll bindings) := by
  intro place hplace
  rw [at?_unbindAll, at?_unbindAll, h place hplace]

theorem lowerByte_ne_colon {c : UInt8} (h : lowerByte c ≠ c) : lowerByte c ≠ 58 := by
  intro hcolon
  rw [lowerByte] at h hcolon
  split at hcolon
  · next hcase =>
      have hback : c = 58 - 32 := by
        rw [← hcolon]
        simp
      rw [hback] at hcase
      exact absurd hcase (by decide)
  · next hcase =>
      rw [if_neg hcase] at h
      exact h rfl

/-- A small letter is none of those keys. -/
theorem lowerKey_not_dead {event : Event} {alt : Bytes} (h : lowerKey event = some alt) :
    alt ∉ deadKeys := by
  cases event with
  | character s =>
      cases s with
      | nil => cases h
      | cons c s =>
          rw [lowerKey] at h
          split at h
          · next hne =>
              cases h
              have hkeys : deadKeys =
                  [[67, 116, 114, 108, 45, 66], [69, 115, 99, 97, 112, 101], [58]] := rfl
              simpa [hkeys] using lowerByte_ne_colon hne
          · cases h
  | key k => cases h
  | sequence s => cases h
  | custom => cases h

theorem Agree.lookup {m m' : KeyManager} (h : m.Agree m') {event : Event} (mode : Mode)
    (isPrefix : Bool) (hkey : eventToKeyString event ∉ deadKeys) :
    m.lookup event mode isPrefix = m'.lookup event mode isPrefix := by
  have hown : m.lookupByKey (eventToKeyString event) mode isPrefix =
      m'.lookupByKey (eventToKeyString event) mode isPrefix := by
    rw [lookupByKey_eq, lookupByKey_eq, h _ hkey]
  rw [KeyManager.lookup, KeyManager.lookup, hown]
  cases halt : lowerKey event with
  | none => rfl
  | some alt =>
      have hsmall : m.lookupByKey alt mode isPrefix = m'.lookupByKey alt mode isPrefix := by
        rw [lookupByKey_eq, lookupByKey_eq, h _ (lowerKey_not_dead halt)]
      simp only [Option.bind_some, hsmall]

end KeyManager

/-- A character is at most four bytes, as in UTF-8. -/
def Event.WellFormed : Event → Prop
  | .character s => s.length ≤ 4
  | _ => True

instance : DecidablePred Event.WellFormed
  | .character s => inferInstanceAs (Decidable (s.length ≤ 4))
  | .key _ => inferInstanceAs (Decidable True)
  | .sequence _ => inferInstanceAs (Decidable True)
  | .custom => inferInstanceAs (Decidable True)

namespace TuiApp

open KeyManager

def withKeys (keys : KeyManager) (a : TuiApp) : TuiApp := { a with keys := keys }

/-- The same state, but for bindings of keys that are never looked up. -/
def Alike (a b : TuiApp) : Prop := ∃ keys, b = a.withKeys keys ∧ a.keys.Agree keys

variable {a b : TuiApp}

/-- A step that has nothing to do with the keys. -/
theorem Alike.congr {f : TuiApp → TuiApp} (h : a.Alike b)
    (hf : ∀ keys, f (a.withKeys keys) = (f a).withKeys keys) (hkeys : (f a).keys = a.keys) :
    (f a).Alike (f b) := by
  obtain ⟨keys, rfl, hagree⟩ := h
  exact ⟨keys, hf keys, hkeys ▸ hagree⟩

theorem Alike.onDocker {α : Type} (h : a.Alike b) (serial : Nat) (d : DockerMenu)
    (f : DockerMenu → α × DockerMenu) :
    (a.onDocker serial d f).1 = (b.onDocker serial d f).1 ∧
      (a.onDocker serial d f).2.Alike (b.onDocker serial d f).2 := by
  obtain ⟨keys, rfl, hagree⟩ := h
  exact ⟨rfl, keys, rfl, hagree⟩

theorem agree_registerKeyBindings {m m' : KeyManager} (h : m.Agree m') (d : DockerMenu) :
    (d.registerKeyBindings m).1 = (d.registerKeyBindings m').1 ∧
      (d.registerKeyBindings m).2.Agree (d.registerKeyBindings m').2 := by
  simp only [DockerMenu.registerKeyBindings]
  split
  · exact ⟨rfl, (h.unbindAll _).bindAll _⟩
  · exact ⟨rfl, h.bindAll _⟩

theorem Alike.activateDocker (h : a.Alike b) (serial : Nat) (d : DockerMenu)
    (f : DockerMenu → DockerMenu) :
    (a.activateDocker serial d f).Alike (b.activateDocker serial d f) := by
  obtain ⟨keys, rfl, hagree⟩ := h
  obtain ⟨hmenu, hkeys⟩ := agree_registerKeyBindings hagree d
  refine ⟨(d.registerKeyBindings keys).2, ?_, hkeys⟩
  have hunfold : ∀ (k : KeyManager) (c : TuiApp), c.keys = k →
      c.activateDocker serial d f =
        (TuiApp.onDocker serial (d.registerKeyBindings k).1 (fun d => ((), f d))
          (c.withKeys (d.registerKeyBindings k).2)).2 := by
    rintro k c rfl
    rfl
  rw [hunfold _ a rfl, hunfold keys (a.withKeys keys) rfl, ← hmenu]
  rfl

theorem Alike.callMenu (h : a.Alike b) (answers : DockerAnswers) (menuId : Bytes)
    (entry : Nat × MenuCall) :
    (a.callMenu answers menuId entry).Alike (b.callMenu answers menuId entry) := by
  have hscreens : b.screens = a.screens := by
    obtain ⟨keys, rfl, -⟩ := h
    rfl
  have hmenus : b.menus = a.menus := by
    obtain ⟨keys, rfl, -⟩ := h
    rfl
  rw [TuiApp.callMenu, TuiApp.callMenu, hscreens, hmenus]
  split
  · exact h.congr (fun _ => rfl) rfl
  · have hregister : a.registerDockerCommands.Alike b.registerDockerCommands := by
      refine h.congr (fun keys => ?_) ?_
      · by_cases hdone : a.dockerRegistered <;> simp [registerDockerCommands, withKeys, hdone]
      · by_cases hdone : a.dockerRegistered <;> simp [registerDockerCommands, hdone]
    exact hregister.activateDocker _ _ _
  · obtain ⟨keys, rfl, hagree⟩ := h
    exact ⟨_, rfl, hagree.unbindAll _⟩
  · exact h.activateDocker _ _ _
  · split
    · exact h
    · exact h.congr (fun _ => rfl) rfl
  · exact h

theorem Alike.callMenus (h : a.Alike b) (answers : DockerAnswers) (menuId : Bytes)
    (c : MenuManager.Call) :
    (a.callMenus answers menuId c).1 = (b.callMenus answers menuId c).1 ∧
      (a.callMenus answers menuId c).2.Alike (b.callMenus answers menuId c).2 := by
  have hfold : ∀ (entries : List (Nat × MenuCall)) (a b : TuiApp), a.Alike b →
      (entries.foldl (TuiApp.callMenu answers menuId) a).Alike
        (entries.foldl (TuiApp.callMenu answers menuId) b) := by
    intro entries
    induction entries with
    | nil => exact fun a b h => h
    | cons entry entries ih =>
        intro a b h
        exact ih _ _ (h.callMenu answers menuId entry)
  obtain ⟨keys, rfl, hagree⟩ := h
  exact ⟨rfl, hfold _ _ _ ⟨keys, rfl, hagree⟩⟩

/-- The same answer, and states that are alike. -/
def Likewise {α : Type} (r r' : α × TuiApp) : Prop := r.1 = r'.1 ∧ r.2.Alike r'.2

theorem Alike.setStatusMessage (h : a.Alike b) (message : Bytes) :
    (a.setStatusMessage message).Alike (b.setStatusMessage message) :=
  h.congr (fun _ => rfl) rfl

theorem Alike.onWindow (h : a.Alike b) (f : Window → Bool × Window) :
    Likewise (a.onWindow f) (b.onWindow f) := by
  obtain ⟨keys, rfl, hagree⟩ := h
  simp only [TuiApp.onWindow, withKeys]
  split
  · exact ⟨rfl, keys, rfl, hagree⟩
  · exact ⟨rfl, keys, rfl, hagree⟩

theorem Alike.handOver (h : a.Alike b) (panes : Window → List Nat) :
    (a.handOver panes).Alike (b.handOver panes) := by
  obtain ⟨keys, rfl, hagree⟩ := h
  simp only [TuiApp.handOver, withKeys]
  split
  · exact ⟨keys, rfl, hagree⟩
  · exact ⟨keys, rfl, hagree⟩

theorem Likewise.report {r r' : Option Bool × TuiApp} (h : Likewise r r') (done failed : Bytes) :
    Likewise (TuiApp.report done failed r) (TuiApp.report done failed r') := by
  obtain ⟨answer, state⟩ := r
  obtain ⟨answer', state'⟩ := r'
  obtain ⟨rfl, keys, hstate, hagree⟩ := h
  cases hstate
  cases answer with
  | none => exact ⟨rfl, keys, rfl, hagree⟩
  | some did => cases did with
    | true => exact ⟨rfl, keys, rfl, hagree⟩
    | false => exact ⟨rfl, keys, rfl, hagree⟩

theorem Alike.sendInput (h : a.Alike b) (data : Bytes) :
    (a.sendInput data).Alike (b.sendInput data) := by
  obtain ⟨keys, rfl, hagree⟩ := h
  have hwindows : (a.withKeys keys).windows = a.windows := rfl
  have hcontents : (a.withKeys keys).contents = a.contents := rfl
  rw [TuiApp.sendInput, TuiApp.sendInput, hwindows, hcontents]
  split
  · exact ⟨keys, rfl, hagree⟩
  · split
    · exact ⟨keys, rfl, hagree⟩
    · split
      · exact ⟨keys, rfl, hagree⟩
      · exact ⟨keys, rfl, hagree⟩

theorem Alike.run (h : a.Alike b) (s : Surroundings) (args : List Bytes) (c : Command) :
    Likewise (a.run s args c) (b.run s args c) := by
  have hwindow := h.onWindow
  have hreaping : ∀ panes f,
      Likewise ((a.handOver panes).onWindow f) ((b.handOver panes).onWindow f) :=
    fun panes => (h.handOver panes).onWindow
  have hmenus := h.callMenus s.docker
  obtain ⟨keys, rfl, hagree⟩ := h
  have hhere : Likewise (true, a) (true, a.withKeys keys) := ⟨rfl, keys, rfl, hagree⟩
  cases c with
  | newWindow =>
      simp only [TuiApp.run, runNewWindow]
      split
      · exact ⟨rfl, keys, rfl, hagree⟩
      · exact ⟨rfl, keys, rfl, hagree⟩
  | killWindow => exact ⟨rfl, keys, rfl, hagree⟩
  | nextWindow => exact ⟨rfl, keys, rfl, hagree⟩
  | previousWindow => exact ⟨rfl, keys, rfl, hagree⟩
  | lastWindow => exact ⟨rfl, keys, rfl, hagree⟩
  | renameWindow => exact ⟨rfl, keys, rfl, hagree⟩
  | split direction done =>
      have hcontents : (a.withKeys keys).activeContents = a.activeContents := rfl
      simp only [TuiApp.run, runSplit, hcontents]
      split
      · exact ⟨rfl, (hwindow _).2⟩
      · exact (hwindow _).report _ _
  | killPane => exact (hreaping _ _).report _ _
  | saveLayout => exact (hwindow _).report _ _
  | restoreLayout =>
      have hcontents : (a.withKeys keys).activeContents = a.activeContents := rfl
      simp only [TuiApp.run, runRestoreLayout, hcontents]
      split
      · exact ⟨rfl, keys, rfl, hagree⟩
      · exact (hreaping _ _).report _ _
  | toggleZoom => exact (hwindow _).report _ _
  | navigate direction done =>
      have hmoved := hwindow fun w => w.navigate direction
      simp only [TuiApp.run, runNavigate, hmoved.1]
      split
      · exact ⟨rfl, hmoved.2.setStatusMessage _⟩
      · exact ⟨rfl, hmoved.2⟩
  | enterInsertMode => exact ⟨rfl, keys, rfl, hagree⟩
  | enterNormalMode => exact ⟨rfl, keys, rfl, hagree⟩
  | enterVisualMode => exact ⟨rfl, keys, rfl, hagree⟩
  | enterCommandMode => exact ⟨rfl, keys, rfl, hagree⟩
  | quit => exact ⟨rfl, keys, rfl, hagree⟩
  | help => exact ⟨rfl, keys, rfl, hagree⟩
  | load =>
      have hfactories : (a.withKeys keys).menus = a.menus := rfl
      cases args with
      | nil => exact ⟨rfl, keys, rfl, hagree⟩
      | cons menuId args =>
          simp only [TuiApp.run, runLoad, hfactories]
          split
          · exact ⟨rfl, keys, rfl, hagree⟩
          · have hloaded := hmenus menuId (.load menuId (made menuId))
            rw [← hloaded.1]
            exact ⟨rfl, hloaded.2.setStatusMessage _⟩
  | back =>
      have hdone := hmenus [] .back
      simp only [TuiApp.run, runBack, ← hdone.1]
      exact ⟨rfl, hdone.2.setStatusMessage _⟩
  | forward =>
      have hdone := hmenus (a.menus.forwardStack.head?.getD [])
        (.forward (made (a.menus.forwardStack.head?.getD [])))
      have hmenus : (a.withKeys keys).menus = a.menus := rfl
      simp only [TuiApp.run, runForward, hmenus, ← hdone.1]
      exact ⟨rfl, hdone.2.setStatusMessage _⟩
  | menus => exact ⟨rfl, keys, rfl, hagree⟩
  | home =>
      exact ⟨rfl, (hmenus [] .clearStack).2.setStatusMessage _⟩
  | docker c =>
      have hmenus : (a.withKeys keys).menus = a.menus := rfl
      have hscreens : (a.withKeys keys).screens = a.screens := rfl
      simp only [TuiApp.run, runDocker, hmenus, hscreens]
      split
      · exact ⟨rfl, keys, rfl, hagree⟩
      · split
        · exact ⟨rfl, keys, rfl, hagree⟩
        · exact ⟨rfl, keys, rfl, hagree⟩

theorem Alike.execute (h : a.Alike b) (s : Surroundings) (name : Bytes) (args : List Bytes) :
    Likewise (a.execute s name args) (b.execute s name args) := by
  have hrun := h.run s args
  have hcommands : b.commands = a.commands := by
    obtain ⟨keys, rfl, -⟩ := h
    rfl
  simp only [TuiApp.execute, hcommands]
  split
  · exact ⟨rfl, h⟩
  · exact hrun _

theorem Alike.executeKey (h : a.Alike b) (s : Surroundings) (command : Bytes) :
    (a.executeKey s command).Alike (b.executeKey s command) := by
  have hdone := h.execute s command []
  simp only [TuiApp.executeKey, hdone.1]
  split
  · exact hdone.2
  · exact hdone.2.setStatusMessage _

theorem Alike.handleBarEvent (h : a.Alike b) (s : Surroundings) (event : Event) :
    Likewise (a.handleBarEvent s event) (b.handleBarEvent s event) := by
  have hbar : b.bar = a.bar := by
    obtain ⟨keys, rfl, -⟩ := h
    rfl
  simp only [TuiApp.handleBarEvent, executeBuffer, hbar]
  split
  · exact ⟨rfl, (h.congr (f := deactivateBar) (fun _ => rfl) rfl).setStatusMessage _⟩
  · split
    · refine ⟨rfl, ?_⟩
      split
      · exact (h.setStatusMessage _).congr (f := deactivateBar) (fun _ => rfl) rfl
      · next command args _ =>
          have hdone := h.execute s command args
          simp only [← hdone.1]
          exact (hdone.2.setStatusMessage _).congr (f := deactivateBar) (fun _ => rfl) rfl
    · split
      · exact ⟨rfl, h⟩
      · next buffer _ =>
          obtain ⟨keys, rfl, hagree⟩ := h
          exact ⟨rfl, keys, rfl, hagree⟩

theorem Alike.handleMenuEvent (h : a.Alike b) (s : Surroundings) (event : Event) :
    Likewise (a.handleMenuEvent s event) (b.handleMenuEvent s event) := by
  have hmenus : b.menus = a.menus := by
    obtain ⟨keys, rfl, -⟩ := h
    rfl
  have hscreens : b.screens = a.screens := by
    obtain ⟨keys, rfl, -⟩ := h
    rfl
  simp only [TuiApp.handleMenuEvent, hmenus, hscreens]
  split
  · exact ⟨rfl, h⟩
  · split
    · next serial index _ =>
        simp only [handleMainEvent, onItemSelected]
        split
        · exact ⟨rfl, h.congr (f := fun a => a.setScreen _ _) (fun _ => rfl) rfl⟩
        · split
          · exact ⟨rfl, h.congr (f := fun a => a.setScreen _ _) (fun _ => rfl) rfl⟩
          · split
            · refine ⟨rfl, ?_⟩
              dsimp only
              repeat' split
              all_goals
                first
                  | exact h
                  | exact (h.execute s _ _).2
                  | exact h.setStatusMessage _
            · exact ⟨rfl, h⟩
    · exact h.onDocker _ _ _

theorem Alike.handleInsertInput (h : a.Alike b) (event : Event) :
    Likewise (a.handleInsertInput event) (b.handleInsertInput event) := by
  have hsend := h.sendInput
  obtain ⟨keys, rfl, hagree⟩ := h
  have hwindows : (a.withKeys keys).windows = a.windows := rfl
  simp only [TuiApp.handleInsertInput.eq_def, hwindows]
  split
  · exact ⟨rfl, keys, rfl, hagree⟩
  · split
    · split
      · exact ⟨rfl, keys, rfl, hagree⟩
      · exact ⟨rfl, hsend _⟩
    · split
      · exact ⟨rfl, hsend _⟩
      · split
        · exact ⟨rfl, keys, rfl, hagree⟩
        · exact ⟨rfl, keys, rfl, hagree⟩
    · exact ⟨rfl, keys, rfl, hagree⟩

/-! ## Keys that are looked up -/

/-- What is left when the events that are taken before are gone. -/
structure Looked (event : Event) : Prop where
  wellFormed : event.WellFormed
  notPrefix : ¬ isPrefixKey event = true
  notEscape : event ≠ .key .escape
  notColon : event ≠ .character (bytes ":")

theorem Looked.not_dead {event : Event} (h : Looked event) :
    eventToKeyString event ∉ deadKeys := by
  have hkeys : deadKeys =
      [[67, 116, 114, 108, 45, 66], [69, 115, 99, 97, 112, 101], [58]] := rfl
  rw [hkeys]
  cases event with
  | character s =>
      cases s with
      | nil => simp [eventToKeyString]
      | cons code s =>
          rw [eventToKeyString]
          split
          · have hcode : code ≠ 2 := by simpa [isPrefixKey] using h.notPrefix
            have hctrl : bytes "Ctrl-" = [67, 116, 114, 108, 45] := rfl
            have hletter : ¬ 64 + code = 66 := by
              intro heq
              apply hcode
              have hback : 64 + code - 64 = code := by
                rw [UInt8.add_comm, UInt8.add_sub_cancel]
              rw [← hback, heq]
              rfl
            simp [hctrl, hletter]
          · have hlength : (code :: s).length ≤ 4 := h.wellFormed
            have hcolon : code :: s ≠ [58] := fun heq => h.notColon (congrArg Event.character heq)
            simp only [List.mem_cons, List.not_mem_nil, or_false, not_or]
            refine ⟨?_, ?_, hcolon⟩
            · rintro heq
              rw [heq] at hlength
              exact absurd hlength (by decide)
            · rintro heq
              rw [heq] at hlength
              exact absurd hlength (by decide)
  | key k =>
      cases k with
      | escape => exact absurd rfl h.notEscape
      | function n =>
          have hname : ∀ n : Fin 12, eventToKeyString (.key (.function n)) ∉
              [[67, 116, 114, 108, 45, 66], [69, 115, 99, 97, 112, 101], [58]] := by
            decide
          exact hname n
      | _ => decide
  | sequence s => simp [eventToKeyString]
  | custom => simp [eventToKeyString]

theorem Alike.lookup (h : a.Alike b) {event : Event} (hlooked : Looked event) (mode : Mode)
    (isPrefix : Bool) : b.keys.lookup event mode isPrefix = a.keys.lookup event mode isPrefix := by
  obtain ⟨keys, rfl, hagree⟩ := h
  exact (hagree.lookup mode isPrefix hlooked.not_dead).symm

theorem Alike.handlePrefixInput (h : a.Alike b) (s : Surroundings) {event : Event}
    (hlooked : Looked event) :
    Likewise (a.handlePrefixInput s event) (b.handlePrefixInput s event) := by
  have hended :
      ({ a with sawEscape := false, modes := a.modes.deactivatePrefix } : TuiApp).Alike
        { b with sawEscape := false, modes := b.modes.deactivatePrefix } :=
    h.congr (f := fun a => { a with sawEscape := false, modes := a.modes.deactivatePrefix })
      (fun _ => rfl) rfl
  simp only [TuiApp.handlePrefixInput, h.lookup hlooked]
  split
  · exact ⟨rfl, hended.executeKey s _⟩
  · split
    · exact ⟨rfl, hended⟩
    · exact ⟨rfl, hended.setStatusMessage _⟩

theorem Alike.handleNormalInput (h : a.Alike b) (s : Surroundings) {event : Event}
    (hlooked : Looked event) :
    Likewise (a.handleNormalInput s event) (b.handleNormalInput s event) := by
  have hmenu := h.handleMenuEvent s event
  simp only [TuiApp.handleNormalInput, ← hmenu.1, hmenu.2.lookup hlooked]
  split
  · exact ⟨rfl, hmenu.2⟩
  · split
    · exact ⟨rfl, hmenu.2.executeKey s _⟩
    · exact ⟨rfl, hmenu.2⟩

/-! ## Runs -/

theorem Alike.releaseEscape (h : a.Alike b) : a.releaseEscape.Alike b.releaseEscape := by
  have hlowered : ({ a with sawEscape := false } : TuiApp).Alike { b with sawEscape := false } :=
    h.congr (f := fun a => { a with sawEscape := false }) (fun _ => rfl) rfl
  have hsame : b.sawEscape = a.sawEscape ∧ b.modes = a.modes := by
    obtain ⟨keys, rfl, -⟩ := h
    exact ⟨rfl, rfl⟩
  have hheld : (b.sawEscape = true ∧ b.modes.currentMode = .insert) ↔
      (a.sawEscape = true ∧ a.modes.currentMode = .insert) := by
    rw [hsame.1, hsame.2]
  rw [TuiApp.releaseEscape, TuiApp.releaseEscape]
  by_cases hcond : a.sawEscape = true ∧ a.modes.currentMode = .insert
  · rw [if_pos hcond, if_pos (hheld.2 hcond)]
    exact hlowered.sendInput [27]
  · rw [if_neg hcond, if_neg fun hb => hcond (hheld.1 hb)]
    exact hlowered

theorem Alike.handleByMode (h : a.Alike b) (s : Surroundings) {event : Event}
    (hlooked : Looked event) :
    Likewise (a.handleByMode s event) (b.handleByMode s event) := by
  have hmodes : b.modes = a.modes := by
    obtain ⟨keys, rfl, -⟩ := h
    rfl
  rw [TuiApp.handleByMode, TuiApp.handleByMode, hmodes]
  split
  · exact h.handlePrefixInput s hlooked
  · exact h.handleInsertInput event
  · exact h.handleNormalInput s hlooked
  · exact ⟨rfl, h⟩

theorem Alike.handleInput (h : a.Alike b) (s : Surroundings) {event : Event}
    (hevent : event.WellFormed) :
    Likewise (a.handleInput s event) (b.handleInput s event) := by
  have hchecked : (a.checkPrefixTimeout s).Alike (b.checkPrefixTimeout s) :=
    h.congr (fun _ => rfl) rfl
  have hsame : (b.checkPrefixTimeout s).bar = (a.checkPrefixTimeout s).bar ∧
      (b.checkPrefixTimeout s).sawEscape = (a.checkPrefixTimeout s).sawEscape := by
    obtain ⟨keys, rfl, -⟩ := h
    exact ⟨rfl, rfl⟩
  have hactivated : ∀ {a b : TuiApp}, a.Alike b → (a.activatePrefix s).Alike (b.activatePrefix s) :=
    fun h => h.congr (fun _ => rfl) rfl
  have hsaw : ∀ saw, ({ a.checkPrefixTimeout s with sawEscape := saw } : TuiApp).Alike
      { b.checkPrefixTimeout s with sawEscape := saw } :=
    fun saw => hchecked.congr (f := fun a => { a with sawEscape := saw }) (fun _ => rfl) rfl
  simp only [hsame.1] at hsaw
  simp only [TuiApp.handleInput, hsame.1, hsame.2]
  split
  · exact ⟨rfl, hchecked⟩
  · split
    · exact hchecked.handleBarEvent s event
    · split
      · exact ⟨rfl, hactivated hchecked⟩
      · next hprefix =>
          split
          · exact ⟨rfl, hsaw true⟩
          · next hescape =>
              split
              · exact ⟨rfl, hactivated (hsaw false)⟩
              · split
                · exact ⟨rfl, (hchecked.releaseEscape.congr
                    (f := fun a => { a with bar := { active := true } })
                    (fun _ => rfl) rfl).setStatusMessage _⟩
                · next hcolon =>
                    exact hchecked.releaseEscape.handleByMode s
                      ⟨hevent, hprefix, hescape, hcolon⟩

/-- What is bound to Ctrl-B, Escape and the colon makes no difference in any run: with other
bindings of these keys every event finds the same state, the bindings apart, and is handled or
not as before. -/
theorem dead_keys_make_no_difference (a : TuiApp) (keys : KeyManager) (h : a.keys.Agree keys)
    (inputs : List Input) (hinputs : ∀ i ∈ inputs, i.2.WellFormed) (i : Input)
    (hi : i.2.WellFormed) :
    let before := Runs.run step a inputs
    let before' := Runs.run step (a.withKeys keys) inputs
    before' = before.withKeys before'.keys ∧
      (before'.handleInput i.1 i.2).1 = (before.handleInput i.1 i.2).1 := by
  intro before before'
  have hrun : before.Alike before' := by
    have hinduct : ∀ (inputs : List Input) (a b : TuiApp), a.Alike b →
        (∀ i ∈ inputs, i.2.WellFormed) →
          (Runs.run step a inputs).Alike (Runs.run step b inputs) := by
      intro inputs
      induction inputs with
      | nil => exact fun a b h _ => h
      | cons i inputs ih =>
          intro a b h hinputs
          exact ih _ _ (h.handleInput i.1 (hinputs i List.mem_cons_self)).2
            fun j hj => hinputs j (List.mem_cons_of_mem _ hj)
    exact hinduct inputs a (a.withKeys keys) ⟨keys, rfl, h⟩ hinputs
  refine ⟨?_, (hrun.handleInput i.1 hi).1.symm⟩
  obtain ⟨keys', hkeys, -⟩ := hrun
  rw [hkeys]
  rfl

/-- The defaults for these keys. -/
def deadDefaults : List KeyBinding := KeyManager.defaults.filter fun b => b.key ∈ deadKeys

theorem agree_deadDefaults :
    KeyManager.create.Agree (KeyManager.create.unbindAll deadDefaults) := by
  intro place hplace
  rw [at?_unbindAll, if_neg]
  rintro ⟨b, hb, rfl⟩
  have hdead : b.key ∈ deadKeys := by simpa using (List.mem_filter.1 hb).2
  exact hplace hdead

/-- Three of the defaults bind such keys, to commands. -/
theorem dead_defaults_make_no_difference :
    deadDefaults.map KeyBinding.command =
        [bytes "command-mode", bytes "enter-command-mode", bytes "enter-normal-mode"] ∧
      ((Runs.run step ((initial true).withKeys (KeyManager.create.unbindAll deadDefaults))
          openWindow).handleInput calm escape).1 =
        ((Runs.run step (initial true) openWindow).handleInput calm escape).1 :=
  ⟨by decide +kernel,
    (dead_keys_make_no_difference (initial true) (KeyManager.create.unbindAll deadDefaults)
      agree_deadDefaults openWindow (by decide +kernel) (calm, escape) trivial).2⟩

end TuiApp

end Nazg.Tui

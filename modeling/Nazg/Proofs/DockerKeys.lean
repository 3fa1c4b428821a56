import Nazg.Proofs.KeyBindings
import Nazg.Proofs.MenuMoves

/-!
# The keys of the current menu

A dashboard binds its keys when it becomes the current menu and unbinds them when it is left.
So the bindings in force say which menu is on top, whatever led there: they are the defaults,
with those of the dashboard if it is a dashboard, and no dashboard below holds on to any.
-/

namespace Nazg.Tui

open Lib

/-- What a dashboard has bound, and whether it takes itself for current. -/
def Screen.bindings : Screen → Option (List KeyBinding × Bool)
  | .main _ => none
  | .docker d => some (d.activeKeyBindings, d.keyBindingsActive)

namespace DockerMenu

/-- The keys of a dashboard are as before. -/
def SameKeys (d d' : DockerMenu) : Prop :=
  d'.activeKeyBindings = d.activeKeyBindings ∧ d'.keyBindingsActive = d.keyBindingsActive

theorem SameKeys.trans {d d' d'' : DockerMenu} (h : SameKeys d d') (h' : SameKeys d' d'') :
    SameKeys d d'' :=
  ⟨h'.1.trans h.1, h'.2.trans h.2⟩

theorem Reread.sameKeys {d d' : DockerMenu} (h : Reread d d') : SameKeys d d' :=
  ⟨h.bindings, h.active⟩

theorem sameKeys_showTab (tab : Tab) (d : DockerMenu) : SameKeys d (d.showTab tab) := by
  rw [showTab, switchTab]
  split
  · exact ⟨rfl, rfl⟩
  · exact ⟨rfl, rfl⟩

theorem sameKeys_onContainer (what : Bytes) (d : DockerMenu) :
    SameKeys d (d.onContainer what) := by
  rw [onContainer]
  split
  · exact ⟨rfl, rfl⟩
  · split
    · exact ⟨rfl, rfl⟩
    · exact ⟨rfl, rfl⟩

theorem sameKeys_run (answers : DockerAnswers) (d : DockerMenu) (c : Command) :
    SameKeys d (d.run answers c).2 := by
  cases c with
  | tabNext => exact sameKeys_showTab _ d
  | tabPrev => exact sameKeys_showTab _ d
  | showTab tab => exact sameKeys_showTab tab d
  | refresh => exact (reread_onRefresh answers d).sameKeys
  | containerStart => exact sameKeys_onContainer _ d
  | containerStop => exact sameKeys_onContainer _ d
  | containerRestart => exact sameKeys_onContainer _ d
  | containerLogs => exact sameKeys_onContainer _ d
  | runHelloWorld =>
      rw [run, onRunHelloWorld]
      split
      · exact ⟨rfl, rfl⟩
      · dsimp only
        split
        · exact ⟨rfl, rfl⟩
        · exact ⟨rfl, rfl⟩

theorem sameKeys_moveIndex (f : Int → Int → Int) (d : DockerMenu) :
    SameKeys d (d.moveIndex f) := by
  rw [moveIndex]
  split <;> exact ⟨rfl, rfl⟩

theorem sameKeys_handleEvent (answers : DockerAnswers) (event : Event) (d : DockerMenu) :
    SameKeys d (d.handleEvent answers event).2 := by
  rw [handleEvent.eq_def]
  split
  · split
    · exact (reread_onServerSelected answers _ d).sameKeys
    · exact ⟨rfl, rfl⟩
  · split
    · exact (reread_onServerSelected answers _ d).sameKeys
    · exact ⟨rfl, rfl⟩
  · exact sameKeys_moveIndex _ d
  · exact sameKeys_moveIndex _ d
  · exact ⟨rfl, rfl⟩

theorem sameKeys_restoreWith {α : Type*} {read : Bytes → Option α}
    {set : α → DockerMenu → DockerMenu} {key : Bytes} {state : OrdMap Bytes Bytes}
    {d d' : DockerMenu} (h : restoreWith read set key state d = some d')
    (hset : ∀ v d, SameKeys d (set v d)) : SameKeys d d' := by
  rw [restoreWith] at h
  split at h
  · cases h
    exact ⟨rfl, rfl⟩
  · obtain ⟨value, -, rfl⟩ := Option.map_eq_some_iff.1 h
    exact hset value d

theorem sameKeys_restoreState {state : OrdMap Bytes Bytes} {d d' : DockerMenu}
    (h : d.restoreState state = some d') : SameKeys d d' := by
  simp only [restoreState, Option.bind_eq_bind, Option.bind_eq_some_iff] at h
  obtain ⟨d₁, h₁, d₂, h₂, d₃, h₃, d₄, h₄, d₅, h₅, d₆, h₆, d₇, h₇, d₈, h₈, d₉, h₉, h'⟩ := h
  have hkept := fun (d : DockerMenu) => (⟨rfl, rfl⟩ : SameKeys d d)
  exact (sameKeys_restoreWith h₁ fun _ => hkept).trans <|
    (sameKeys_restoreWith h₂ fun _ => hkept).trans <|
    (sameKeys_restoreWith h₃ fun _ => hkept).trans <|
    (sameKeys_restoreWith h₄ fun _ => hkept).trans <|
    (sameKeys_restoreWith h₅ fun _ => hkept).trans <|
    (sameKeys_restoreWith h₆ fun _ => hkept).trans <|
    (sameKeys_restoreWith h₇ fun _ => hkept).trans <|
    (sameKeys_restoreWith h₈ fun _ => hkept).trans <|
    (sameKeys_restoreWith h₉ fun _ => hkept).trans <|
    sameKeys_restoreWith h' fun _ => hkept

end DockerMenu

namespace KeyManager

@[simp] theorem bindAll_nil (m : KeyManager) : m.bindAll [] = m := rfl

/-- Keys that were not bound before are bound and unbound again. -/
theorem at?_unbindAll_bindAll {m : KeyManager} {bindings : List KeyBinding}
    (h : ∀ b ∈ bindings, m.at? b.place = none) (place : Mode × Bool × Bytes) :
    ((m.bindAll bindings).unbindAll bindings).at? place = m.at? place := by
  rw [at?_unbindAll]
  split
  · next hbound =>
      obtain ⟨b, hb, rfl⟩ := hbound
      exact (h b hb).symm
  · next hnot =>
      rw [at?_bindAll]
      clear h
      induction bindings with
      | nil => rfl
      | cons b bindings ih =>
          have hne : ¬ b.place = place := fun heq => hnot ⟨b, List.mem_cons_self, heq⟩
          rw [List.map_cons, Write.after_cons, Write.on, if_neg hne]
          refine ih fun hbound => hnot ?_
          obtain ⟨b', hb', heq⟩ := hbound
          exact ⟨b', List.mem_cons_of_mem b hb', heq⟩

/-- No default is bound to a key of the dashboard in its mode. -/
theorem create_apart : ∀ b ∈ DockerMenu.keyBindings, create.at? b.place = none := by
  decide +kernel

end KeyManager

namespace TuiApp

/-- The keys that the menu under this number binds when it is current. -/
def bindingsOf (a : TuiApp) : Option Nat → List KeyBinding
  | none => []
  | some k => if (a.screens k).bindings.isSome then DockerMenu.keyBindings else []

/-- The keys are those of one menu, and no other dashboard has bound any. -/
structure BoundFor (current : Option Nat) (a : TuiApp) : Prop where
  held : ∀ k b, (a.screens k).bindings = some b →
    b = if current = some k then (DockerMenu.keyBindings, true) else ([], false)
  keys : ∀ place,
    a.keys.at? place = (KeyManager.create.bindAll (a.bindingsOf current)).at? place

/-- Which menu is current after a call on one. -/
def nextCurrent (current : Option Nat) (entry : Nat × MenuCall) : Option Nat :=
  match entry.2 with
  | .onUnload => if current = some entry.1 then none else current
  | .onLoad => some entry.1
  | .onResume => some entry.1
  | _ => current

/-- A menu becomes current when no other is, and is not built while it is. -/
def Timely (current : Option Nat) (entry : Nat × MenuCall) : Prop :=
  match entry.2 with
  | .build => current ≠ some entry.1
  | .onLoad => current = none
  | .onResume => current = none
  | _ => True

variable {current : Option Nat} {a b : TuiApp} {answers : DockerAnswers} {menuId : Bytes}

/-- A menu of the same kind, with the same keys. -/
theorem BoundFor.setScreen (h : BoundFor current a) {k : Nat} {screen : Screen}
    (hsame : screen.bindings = (a.screens k).bindings) : BoundFor current (a.setScreen k screen) := by
  have hbindings : ∀ j, ((a.setScreen k screen).screens j).bindings = (a.screens j).bindings := by
    intro j
    by_cases hj : j = k
    · subst hj
      simp [TuiApp.setScreen, hsame]
    · simp [TuiApp.setScreen, hj]
  have hof : (a.setScreen k screen).bindingsOf current = a.bindingsOf current := by
    cases current with
    | none => rfl
    | some j => simp only [bindingsOf, hbindings]
  refine ⟨fun j b hb => h.held j b (hbindings j ▸ hb), fun place => ?_⟩
  rw [hof]
  exact h.keys place

theorem BoundFor.congr (h : BoundFor current a) (hscreens : b.screens = a.screens)
    (hkeys : b.keys = a.keys) : BoundFor current b := by
  refine ⟨fun k => ?_, fun place => ?_⟩
  · rw [hscreens]
    exact h.held k
  · have hof : b.bindingsOf current = a.bindingsOf current := by
      cases current with
      | none => rfl
      | some k => simp only [bindingsOf, hscreens]
    rw [hof, hkeys]
    exact h.keys place

/-- A menu without keys is current, or none is. -/
theorem boundFor_main {k : Nat} (hmain : (a.screens k).bindings = none) :
    BoundFor (some k) a ↔ BoundFor none a := by
  have hof : a.bindingsOf (some k) = a.bindingsOf none := by simp [bindingsOf, hmain]
  have hother : ∀ j b, (a.screens j).bindings = some b → ¬ some k = some j := by
    intro j b hb heq
    rw [← Option.some.inj heq, hmain] at hb
    cases hb
  constructor
  · intro h
    refine ⟨fun j b hb => ?_, fun place => hof ▸ h.keys place⟩
    have hheld := h.held j b hb
    rw [if_neg (hother j b hb)] at hheld
    exact hheld
  · intro h
    refine ⟨fun j b hb => ?_, fun place => hof ▸ h.keys place⟩
    rw [if_neg (hother j b hb)]
    exact h.held j b hb

/-- A dashboard becomes current. -/
theorem BoundFor.activateDocker (h : BoundFor none a) {k : Nat} {d : DockerMenu}
    (hscreen : a.screens k = .docker d) {f : DockerMenu → DockerMenu}
    (hf : ∀ d, DockerMenu.SameKeys d (f d)) :
    BoundFor (some k) (a.activateDocker k d f) := by
  have hheld : (d.activeKeyBindings, d.keyBindingsActive) = ([], false) :=
    h.held k _ (by rw [hscreen]; rfl)
  obtain ⟨-, hinactive⟩ := Prod.mk.inj hheld
  have hregistered : d.registerKeyBindings a.keys =
      ({ d with activeKeyBindings := DockerMenu.keyBindings, keyBindingsActive := true },
        a.keys.bindAll DockerMenu.keyBindings) := by
    simp [DockerMenu.registerKeyBindings, hinactive]
  have hdone := hf { d with
    activeKeyBindings := DockerMenu.keyBindings, keyBindingsActive := true, shown := a.status }
  have hbindings : ∀ j, ((a.activateDocker k d f).screens j).bindings =
      if k = j then some (DockerMenu.keyBindings, true) else (a.screens j).bindings := by
    intro j
    simp only [TuiApp.activateDocker, hregistered, onDocker, setStatusMessage, TuiApp.setScreen]
    by_cases hj : k = j
    · rw [if_pos hj.symm, if_pos hj]
      exact congrArg some (Prod.ext hdone.1 hdone.2)
    · rw [if_neg (Ne.symm hj), if_neg hj]
  refine ⟨fun j b hb => ?_, fun place => ?_⟩
  · rw [hbindings] at hb
    simp only [Option.some.injEq]
    by_cases hj : k = j
    · rw [if_pos hj] at hb ⊢
      exact (Option.some.inj hb).symm
    · rw [if_neg hj] at hb ⊢
      exact h.held j b hb
  · have hof : (a.activateDocker k d f).bindingsOf (some k) = DockerMenu.keyBindings := by
      rw [bindingsOf, hbindings, if_pos rfl]
      rfl
    have hkeys : (a.activateDocker k d f).keys = a.keys.bindAll DockerMenu.keyBindings := by
      simp only [TuiApp.activateDocker, hregistered, onDocker, setStatusMessage, TuiApp.setScreen]
    rw [hof, hkeys, KeyManager.at?_bindAll, KeyManager.at?_bindAll, h.keys, bindingsOf,
      KeyManager.bindAll_nil]

/-- A dashboard is left. -/
theorem BoundFor.unload (h : BoundFor current a) {k : Nat} {d : DockerMenu}
    (hscreen : a.screens k = .docker d) :
    BoundFor (if current = some k then none else current)
      (a.callMenu answers menuId (k, .onUnload)) := by
  have hheld := h.held k (d.activeKeyBindings, d.keyBindingsActive) (by rw [hscreen]; rfl)
  have hbindings : ∀ j, ((a.callMenu answers menuId (k, .onUnload)).screens j).bindings =
      if k = j then some ([], false) else (a.screens j).bindings := by
    intro j
    simp only [callMenu, hscreen, TuiApp.setScreen, DockerMenu.unregisterKeyBindings]
    by_cases hj : k = j
    · rw [if_pos hj.symm, if_pos hj]
      rfl
    · rw [if_neg (Ne.symm hj), if_neg hj]
  have hkeys : (a.callMenu answers menuId (k, .onUnload)).keys =
      a.keys.unbindAll d.activeKeyBindings := by
    simp only [callMenu, hscreen, TuiApp.setScreen, DockerMenu.unregisterKeyBindings]
  by_cases hcurrent : current = some k
  · rw [if_pos hcurrent] at hheld ⊢
    refine ⟨fun j b hb => ?_, fun place => ?_⟩
    · rw [hbindings] at hb
      by_cases hj : k = j
      · rw [if_pos hj] at hb
        exact (Option.some.inj hb).symm
      · rw [if_neg hj] at hb
        have hother := h.held j b hb
        simpa [hcurrent, hj] using hother
    · have hof : a.bindingsOf current = DockerMenu.keyBindings := by
        rw [hcurrent, bindingsOf, hscreen]
        rfl
      rw [hkeys, (Prod.mk.inj hheld).1, KeyManager.at?_unbindAll, h.keys, hof,
        ← KeyManager.at?_unbindAll, KeyManager.at?_unbindAll_bindAll KeyManager.create_apart,
        bindingsOf, KeyManager.bindAll_nil]
  · rw [if_neg hcurrent] at hheld ⊢
    refine ⟨fun j b hb => ?_, fun place => ?_⟩
    · rw [hbindings] at hb
      by_cases hj : k = j
      · subst hj
        rw [if_pos rfl] at hb
        rw [if_neg hcurrent]
        exact (Option.some.inj hb).symm
      · rw [if_neg hj] at hb
        exact h.held j b hb
    · have hof : (a.callMenu answers menuId (k, .onUnload)).bindingsOf current =
          a.bindingsOf current := by
        cases current with
        | none => rfl
        | some j =>
            have hj : ¬ k = j := fun hj => hcurrent (congrArg some hj.symm)
            simp only [bindingsOf, hbindings, if_neg hj]
      rw [hof, hkeys, (Prod.mk.inj hheld).1]
      exact h.keys place

theorem bound_callMenu (h : BoundFor current a) {entry : Nat × MenuCall}
    (htimely : Timely current entry) :
    BoundFor (nextCurrent current entry) (a.callMenu answers menuId entry) := by
  obtain ⟨k, call⟩ := entry
  cases call with
  | build =>
      change BoundFor current (a.setScreen k (.made menuId))
      have hbindings : ∀ j, ((a.setScreen k (.made menuId)).screens j).bindings =
          if k = j then (Screen.made menuId).bindings else (a.screens j).bindings := by
        intro j
        simp only [TuiApp.setScreen, eq_comm]
        split <;> rfl
      refine ⟨fun j b hb => ?_, fun place => ?_⟩
      · rw [hbindings] at hb
        by_cases hj : k = j
        · subst hj
          have hother : ¬ current = some k := htimely
          rw [if_neg hother]
          rw [if_pos rfl, Screen.made] at hb
          split at hb
          · exact (Option.some.inj hb).symm
          · cases hb
        · rw [if_neg hj] at hb
          exact h.held j b hb
      · have hof : (a.setScreen k (.made menuId)).bindingsOf current = a.bindingsOf current := by
          cases current with
          | none => rfl
          | some j =>
              have hj : ¬ k = j := fun hj => htimely (congrArg some hj.symm)
              simp only [bindingsOf, hbindings, if_neg hj]
        rw [hof]
        exact h.keys place
  | onLoad =>
      obtain rfl : current = none := htimely
      simp only [nextCurrent, callMenu]
      cases hscreen : a.screens k with
      | main index => exact (boundFor_main (by rw [hscreen]; rfl)).2 h
      | docker d =>
          obtain ⟨-, hscreens, hkeys⟩ := beside_registerDockerCommands a
          have hregistered := h.congr hscreens hkeys
          exact hregistered.activateDocker (by rw [hscreens, hscreen])
            fun d => (DockerMenu.reread_onLoad answers d).sameKeys
  | onUnload =>
      cases hscreen : a.screens k with
      | main index =>
          have hmain : (a.screens k).bindings = none := by rw [hscreen]; rfl
          simp only [nextCurrent, callMenu, hscreen]
          split
          · next heq =>
              rw [heq] at h
              exact (boundFor_main hmain).1 h
          · exact h
      | docker d => exact h.unload hscreen
  | onResume =>
      obtain rfl : current = none := htimely
      simp only [nextCurrent, callMenu]
      cases hscreen : a.screens k with
      | main index => exact (boundFor_main (by rw [hscreen]; rfl)).2 h
      | docker d =>
          exact h.activateDocker hscreen fun d => (DockerMenu.reread_onResume answers d).sameKeys
  | saveState => exact h
  | restoreState =>
      simp only [nextCurrent, callMenu]
      cases hscreen : a.screens k with
      | main index => exact h
      | docker d =>
          dsimp only
          split
          · exact h
          · next top _ _ =>
              refine h.setScreen ?_
              rw [hscreen]
              cases hrestored : d.restoreState top.savedState with
              | none => rfl
              | some d' =>
                  obtain ⟨hheld, hactive⟩ := DockerMenu.sameKeys_restoreState hrestored
                  exact congrArg some (Prod.ext hheld hactive)

/-! ## Calls on the menus in a row -/

/-- All calls come in time, one after the other. -/
def AllTimely : Option Nat → List (Nat × MenuCall) → Prop
  | _, [] => True
  | current, entry :: entries =>
      Timely current entry ∧ AllTimely (nextCurrent current entry) entries

theorem bound_foldl (h : BoundFor current a) {entries : List (Nat × MenuCall)}
    (htimely : AllTimely current entries) :
    BoundFor (entries.foldl nextCurrent current)
      (entries.foldl (callMenu answers menuId) a) := by
  induction entries generalizing current a with
  | nil => exact h
  | cons entry entries ih => exact ih (bound_callMenu h htimely.1) htimely.2

theorem allTimely_append {entries entries' : List (Nat × MenuCall)} :
    AllTimely current (entries ++ entries') ↔
      AllTimely current entries ∧ AllTimely (entries.foldl nextCurrent current) entries' := by
  induction entries generalizing current with
  | nil => simp [AllTimely]
  | cons entry entries ih => simp [AllTimely, ih, and_assoc]

theorem timely_leaving (m : MenuManager) :
    AllTimely m.serials.head? (MenuManager.leaving m.stack) ∧
      (MenuManager.leaving m.stack).foldl nextCurrent m.serials.head? = none := by
  rw [MenuManager.serials]
  cases m.stack with
  | nil => exact ⟨trivial, rfl⟩
  | cons current rest =>
      rw [MenuManager.leaving]
      split <;> simp [AllTimely, Timely, nextCurrent]

theorem foldl_onUnload_next (serials : List Nat) (current : Option Nat) :
    AllTimely current (serials.map fun k => (k, MenuCall.onUnload)) ∧
      (serials.map fun k => (k, MenuCall.onUnload)).foldl nextCurrent current =
        if ∃ k ∈ serials, current = some k then none else current := by
  induction serials generalizing current with
  | nil => simp [AllTimely]
  | cons k serials ih =>
      obtain ⟨htimely, hlast⟩ := ih (nextCurrent current (k, .onUnload))
      refine ⟨⟨trivial, htimely⟩, ?_⟩
      rw [List.map_cons, List.foldl_cons, hlast]
      by_cases hk : current = some k
      · simp [nextCurrent, hk]
      · simp [nextCurrent, hk]

/-- The calls of a move come in time, and leave the new top as the current menu. -/
theorem timely_moved {preserveState : Bool} {m m' : MenuManager} {calls : List (Nat × MenuCall)}
    (h : MenuManager.Moved preserveState m m' calls) :
    AllTimely m.serials.head? calls ∧
      calls.foldl nextCurrent m.serials.head? = m'.serials.head? := by
  obtain ⟨hleaving, hleft⟩ := timely_leaving m
  cases h with
  | stayed hstack _ => exact ⟨trivial, by rw [MenuManager.serials, MenuManager.serials, hstack]; rfl⟩
  | loaded menuId state hstack _ =>
      have hhead : m'.serials.head? = some m.built := by
        rw [MenuManager.serials, hstack]
        rfl
      rw [allTimely_append, List.foldl_append, hleft, hhead]
      exact ⟨⟨hleaving, by simp [AllTimely, Timely, nextCurrent]⟩, rfl⟩
  | @wentBack _ previous _ _ hstack _ =>
      rw [allTimely_append, List.foldl_append, hleft, MenuManager.returning]
      refine ⟨⟨hleaving, ?_⟩, ?_⟩
      · split <;> simp [AllTimely, Timely, nextCurrent]
      · rw [MenuManager.serials, hstack]
        split <;> rfl
  | cleared hstack _ =>
      obtain ⟨htimely, hlast⟩ := foldl_onUnload_next m.serials.reverse m.serials.head?
      refine ⟨htimely, ?_⟩
      rw [hlast, MenuManager.serials, MenuManager.serials, hstack]
      cases m.stack with
      | nil => simp
      | cons top below => simp

/-! ## Runs -/

theorem bound_callMenus (h : BoundFor a.menus.serials.head? a) {c : MenuManager.Call}
    (hcall : CallFor menuId c) :
    BoundFor (a.callMenus answers menuId c).2.menus.serials.head?
      (a.callMenus answers menuId c).2 := by
  obtain ⟨calls, hmoved, heq⟩ := callMenus_moved hcall answers a
  obtain ⟨htimely, hlast⟩ := timely_moved hmoved
  rw [serials_readyMenus] at htimely hlast
  have hstart : BoundFor a.menus.serials.head?
      { a with
        menus := (a.readyMenus.perform c).2
        modes := (a.readyMenus.perform c).2.context.getD a.modes } :=
    h.congr rfl rfl
  rw [heq, menus_foldl, ← hlast]
  exact bound_foldl hstart htimely

theorem bound_chain (h : BoundFor a.menus.serials.head? a) (hchain : Chain answers a b) :
    BoundFor b.menus.serials.head? b := by
  induction hchain with
  | refl => exact h
  | beside _ hbeside ih =>
      rw [hbeside.menus]
      exact ih.congr hbeside.screens hbeside.keys
  | main _ _ hscreen _ ih => exact ih.setScreen (by rw [hscreen]; rfl)
  | @docker b top _ d f _ _ hscreen hdoes ih =>
      have hkept : ∀ d, DockerMenu.SameKeys d (f d).2 := by
        intro d
        cases hdoes with
        | command c => exact DockerMenu.sameKeys_run answers d c
        | event e => exact DockerMenu.sameKeys_handleEvent answers e d
      have hsame : (Screen.docker (f { d with shown := b.status }).2).bindings =
          (b.screens top.menu.serial).bindings := by
        obtain ⟨hheld, hactive⟩ := hkept { d with shown := b.status }
        rw [hscreen]
        exact congrArg some (Prod.ext hheld hactive)
      exact (ih.setScreen hsame).congr rfl rfl
  | menus _ hcall ih => exact bound_callMenus ih hcall

/-- Whether the current menu is a dashboard. -/
def onDashboard (a : TuiApp) : Bool :=
  match a.menus.stack with
  | [] => false
  | top :: _ => (a.screens top.menu.serial).bindings.isSome

/-- In every run the bindings are the defaults, with the keys of the dashboard exactly while one
is the current menu; a dashboard below holds on to none. -/
theorem keys_of_current_menu (store : Bool) (inputs : List Input) :
    let a := Runs.run step (initial store) inputs
    (∀ place, a.keys.at? place =
      (KeyManager.create.bindAll
        (if a.onDashboard then DockerMenu.keyBindings else [])).at? place) ∧
      ∀ k d, a.screens k = .docker d →
        (d.activeKeyBindings, d.keyBindingsActive) =
          if a.menus.serials.head? = some k then (DockerMenu.keyBindings, true)
          else ([], false) := by
  intro a
  have hbound : BoundFor a.menus.serials.head? a := by
    refine always_of_chain (P := fun a => BoundFor a.menus.serials.head? a)
      (Q := fun _ => True) ?_ (fun s a b _ h hchain => bound_chain h hchain) inputs
      fun _ _ => trivial
    exact ⟨fun k b hb => absurd hb (Option.some_ne_none b).symm, fun place => rfl⟩
  refine ⟨fun place => ?_, fun k d hd => hbound.held k _ (by rw [hd]; rfl)⟩
  rw [hbound.keys place]
  congr 2
  rw [MenuManager.serials, onDashboard]
  cases a.menus.stack with
  | nil => rfl
  | cons top below => rfl

end TuiApp

end Nazg.Tui

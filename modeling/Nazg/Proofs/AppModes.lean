import Mathlib.Data.List.Induction
import Nazg.Proofs.MenuLife
import Nazg.Proofs.PrefixMode
import Nazg.Tui.App

/-!
# The modes of the terminal UI

Menus and commands only ever enter modes other than the prefix mode, so that the prefix flag is
up in the prefix mode alone. A prefix is there from its key on, and serves one key within a
second: what is looked up after it was typed less than a second after the last Ctrl-B or Alt-B,
and nothing was looked up in between.
-/

namespace Nazg.Tui

open Lib

namespace ModeManager

/-- Other modes than the prefix mode are entered, one after the other. -/
inductive Entered (m : ModeManager) : ModeManager → Prop where
  | refl : Entered m m
  | enter {m' : ModeManager} {mode : Mode} : Entered m m' → mode ≠ .prefixMode →
      Entered m (m'.enter mode).2

theorem Entered.trans {m m' m'' : ModeManager} (h : Entered m m') (h' : Entered m' m'') :
    Entered m m'' := by
  induction h' with
  | refl => exact h
  | enter _ hmode ih => exact ih.enter hmode

@[simp] theorem currentMode_enter (m : ModeManager) (mode : Mode) :
    (m.enter mode).2.currentMode = mode := by
  rw [enter]
  split
  · next heq => exact heq
  · rfl

/-- Where the prefix mode is the current one nothing was entered. -/
theorem Entered.eq_of_prefixMode {m m' : ModeManager} (h : Entered m m')
    (hmode : m'.currentMode = .prefixMode) : m' = m := by
  cases h with
  | refl => rfl
  | enter _ hne =>
      rw [currentMode_enter] at hmode
      exact absurd hmode hne

/-- The flag is right, and the prefix mode is not its own previous mode. -/
structure Sound (m : ModeManager) : Prop where
  flag : m.FlagRight
  apart : m.Apart

theorem Entered.sound {m m' : ModeManager} (h : Entered m m') (hm : m.Sound) : m'.Sound := by
  induction h with
  | refl => exact hm
  | enter _ hmode ih =>
      exact ⟨(flagRight_enter ih.flag _).2 fun heq => absurd heq hmode, apart_enter ih.apart _⟩

theorem Sound.deactivatePrefix {m : ModeManager} (h : m.Sound) : m.deactivatePrefix.Sound :=
  ⟨flagRight_deactivatePrefix h.apart, apart_deactivatePrefix h.apart⟩

theorem Sound.activatePrefix {m : ModeManager} (h : m.Sound) (timeoutMs now : Int) :
    (m.activatePrefix timeoutMs now).Sound :=
  ⟨flagRight_activatePrefix m timeoutMs now, apart_step m (.activatePrefix timeoutMs now) h.apart⟩

theorem Sound.checkPrefixTimeout {m : ModeManager} (h : m.Sound) (now : Int) :
    (m.checkPrefixTimeout now).2.Sound := by
  rcases checkPrefixTimeout_cases m now with hsame | hended
  · rw [hsame]
    exact h
  · rw [hended]
    exact h.deactivatePrefix

theorem Sound.ne_of_deactivatePrefix {m : ModeManager} (h : m.Sound) :
    m.deactivatePrefix.currentMode ≠ .prefixMode := by
  simp only [ModeManager.deactivatePrefix]
  split
  · next hcurrent =>
      have hprevious := h.apart hcurrent
      have hne : ¬ m.currentMode = m.previousMode := fun heq => hprevious (heq ▸ hcurrent)
      simp only [exitToPrevious, hne, if_false, currentMode_enter, ne_eq]
      exact hprevious
  · next hne => exact hne

/-- A prefix that outlives the check is younger than its time. -/
theorem Sound.of_checkPrefixTimeout {m : ModeManager} (h : m.Sound) {now : Int}
    (hmode : (m.checkPrefixTimeout now).2.currentMode = .prefixMode) :
    (m.checkPrefixTimeout now).2 = m ∧ m.elapsedMs now < m.prefixTimeoutMs := by
  rw [ModeManager.checkPrefixTimeout] at hmode ⊢
  split at hmode
  · next hinactive => exact absurd (h.flag.2 hmode) hinactive
  · next hactive =>
      split at hmode
      · exact absurd hmode h.ne_of_deactivatePrefix
      · next hyoung =>
          rw [if_neg hactive, if_neg hyoung]
          exact ⟨rfl, not_le.1 hyoung⟩

theorem prefixTime_activatePrefix (m : ModeManager) (timeoutMs now : Int) :
    (m.activatePrefix timeoutMs now).prefixTime = now ∧
      (m.activatePrefix timeoutMs now).prefixTimeoutMs = timeoutMs := by
  simp only [activatePrefix, enter]
  split
  · exact ⟨rfl, rfl⟩
  · exact ⟨rfl, rfl⟩

end ModeManager

/-! ## The menus enter NORMAL and INSERT mode -/

namespace MenuManager

open ModeManager

/-- The context is that of before but for modes that were entered. -/
def ContextEntered (m m' : MenuManager) : Prop :=
  ∀ modes, m.context = some modes → ∃ modes', m'.context = some modes' ∧ modes.Entered modes'

theorem ContextEntered.of_eq {m m' : MenuManager} (h : m'.context = m.context) :
    ContextEntered m m' :=
  fun modes hmodes => ⟨modes, h.trans hmodes, .refl⟩

theorem ContextEntered.updateMode {m m' : MenuManager} (h : ContextEntered m m') :
    ContextEntered m m'.updateMode := by
  intro modes hmodes
  obtain ⟨modes', hmodes', hentered⟩ := h modes hmodes
  refine ⟨(modes'.enter (if m'.stack = [] then .insert else .normal)).2, ?_, hentered.enter ?_⟩
  · simp [MenuManager.updateMode, hmodes']
  · split
    · exact Mode.noConfusion
    · exact Mode.noConfusion

theorem contextEntered_load (menuId : Bytes) (made : Made) (m : MenuManager) :
    ContextEntered m (m.load menuId made).2 := by
  have hunload := (unloaded_unloadCurrent m).context
  simp only [load]
  split
  · exact .of_eq rfl
  · split
    · exact .of_eq hunload
    · split
      · exact .of_eq hunload
      · refine ContextEntered.updateMode (.of_eq ?_)
        exact hunload

theorem contextEntered_perform (m : MenuManager) (c : Call) :
    ContextEntered m (m.perform c).2 := by
  have hunload := (unloaded_unloadCurrent m).context
  cases c with
  | load menuId made => exact contextEntered_load menuId made m
  | back =>
      simp only [perform, back]
      split
      · refine (ContextEntered.of_eq ?_).updateMode
        split
        · exact hunload
        · exact hunload
      · exact .of_eq rfl
  | forward made =>
      simp only [perform, forward]
      split
      · exact .of_eq rfl
      · next menuId saved _ =>
          have hload : ContextEntered m
              { (load menuId made { m with forwardStack := saved }).2 with forwardStack := saved } :=
            contextEntered_load menuId made { m with forwardStack := saved }
          split
          · exact hload.updateMode
          · exact hload
  | clearStack =>
      simp only [perform, clearStack]
      refine (ContextEntered.of_eq ?_).updateMode
      rw [foldl_onUnload]

end MenuManager

namespace TuiApp

open ModeManager

theorem modes_callMenu (answers : DockerAnswers) (menuId : Bytes) (a : TuiApp)
    (entry : Nat × MenuCall) : (a.callMenu answers menuId entry).modes = a.modes := by
  rw [callMenu]
  split
  · rfl
  · simp only [activateDocker, onDocker, registerDockerCommands]
    split <;> rfl
  · rfl
  · rfl
  · split <;> rfl
  · rfl

theorem modes_callMenus (answers : DockerAnswers) (menuId : Bytes) (c : MenuManager.Call)
    (a : TuiApp) : a.modes.Entered (a.callMenus answers menuId c).2.modes := by
  have hfold : ∀ (entries : List (Nat × MenuCall)) (b : TuiApp),
      (entries.foldl (callMenu answers menuId) b).modes = b.modes := by
    intro entries
    induction entries with
    | nil => exact fun b => rfl
    | cons entry entries ih =>
        intro b
        rw [List.foldl_cons, ih, modes_callMenu]
  rw [callMenus]
  dsimp only
  rw [hfold]
  obtain ⟨modes, hmodes, hentered⟩ :=
    MenuManager.contextEntered_perform a.readyMenus c a.modes rfl
  rw [hmodes]
  exact hentered

theorem modes_onWindow (f : Window → Bool × Window) (a : TuiApp) :
    (a.onWindow f).2.modes = a.modes := by
  rw [onWindow]
  split <;> rfl

theorem modes_handOver (panes : Window → List Nat) (a : TuiApp) :
    (a.handOver panes).modes = a.modes := by
  rw [handOver]
  split <;> rfl

theorem modes_report (done failed : Bytes) (r : Option Bool × TuiApp) :
    (report done failed r).2.modes = r.2.modes := by
  rw [report.eq_def]
  split <;> rfl

theorem Entered.of_eq {m m' : ModeManager} (h : m' = m) : m.Entered m' := h ▸ .refl

theorem entered_enterMode (a : TuiApp) {mode : Mode} (hmode : mode ≠ .prefixMode)
    (message : Bytes) : a.modes.Entered (a.enterMode mode message).modes :=
  Entered.refl.enter hmode

theorem modes_run (s : Surroundings) (args : List Bytes) (a : TuiApp) (c : Command) :
    a.modes.Entered (a.run s args c).2.modes := by
  cases c with
  | newWindow =>
      rw [run, runNewWindow]
      split <;> exact .refl
  | killWindow => exact .refl
  | nextWindow => exact .refl
  | previousWindow => exact .refl
  | lastWindow => exact .refl
  | renameWindow => exact .refl
  | split direction done =>
      rw [run, runSplit]
      split
      · exact Entered.of_eq (modes_onWindow _ a)
      · exact Entered.of_eq ((modes_report _ _ _).trans (modes_onWindow _ a))
  | killPane =>
      exact Entered.of_eq
        ((modes_report _ _ _).trans ((modes_onWindow _ _).trans (modes_handOver _ a)))
  | saveLayout => exact Entered.of_eq ((modes_report _ _ _).trans (modes_onWindow _ a))
  | restoreLayout =>
      rw [run, runRestoreLayout]
      split
      · exact .refl
      · exact Entered.of_eq
          ((modes_report _ _ _).trans ((modes_onWindow _ _).trans (modes_handOver _ a)))
  | toggleZoom => exact Entered.of_eq ((modes_report _ _ _).trans (modes_onWindow _ a))
  | navigate direction done =>
      rw [run, runNavigate]
      split
      · exact Entered.of_eq (modes_onWindow (fun w => w.navigate direction) a)
      · exact Entered.of_eq (modes_onWindow (fun w => w.navigate direction) a)
  | enterInsertMode => exact a.entered_enterMode Mode.noConfusion _
  | enterNormalMode => exact a.entered_enterMode Mode.noConfusion _
  | enterVisualMode => exact a.entered_enterMode Mode.noConfusion _
  | enterCommandMode => exact a.entered_enterMode Mode.noConfusion _
  | quit => exact .refl
  | help => exact .refl
  | load =>
      rw [run, runLoad.eq_def]
      split
      · exact .refl
      · split
        · exact .refl
        · exact modes_callMenus _ _ _ a
  | back => exact modes_callMenus _ _ _ a
  | forward => exact modes_callMenus _ _ _ a
  | menus => exact .refl
  | home => exact modes_callMenus _ _ _ a
  | docker c =>
      rw [run, runDocker]
      split
      · exact .refl
      · split
        · exact .refl
        · exact .refl

theorem modes_execute (s : Surroundings) (name : Bytes) (args : List Bytes) (a : TuiApp) :
    a.modes.Entered (a.execute s name args).2.modes := by
  rw [execute]
  split
  · exact .refl
  · exact modes_run s args a _

theorem modes_executeKey (s : Surroundings) (command : Bytes) (a : TuiApp) :
    a.modes.Entered (a.executeKey s command).modes := by
  rw [executeKey]
  split
  · exact modes_execute s command [] a
  · exact modes_execute s command [] a

theorem modes_sendInput (data : Bytes) (a : TuiApp) : (a.sendInput data).modes = a.modes := by
  rw [sendInput]
  split
  · rfl
  · split
    · rfl
    · split <;> rfl

theorem modes_handleBarEvent (s : Surroundings) (event : Event) (a : TuiApp) :
    a.modes.Entered (a.handleBarEvent s event).2.modes := by
  rw [handleBarEvent]
  split
  · exact .refl
  · split
    · rw [executeBuffer]
      split
      · exact .refl
      · exact modes_execute s _ _ a
    · split
      · exact .refl
      · exact .refl

theorem modes_handleInsertInput (event : Event) (a : TuiApp) :
    (a.handleInsertInput event).2.modes = a.modes := by
  rw [handleInsertInput.eq_def]
  split
  · rfl
  · split
    · split
      · rfl
      · exact modes_sendInput _ a
    · split
      · exact modes_sendInput _ a
      · split <;> rfl
    · rfl

theorem modes_handleMenuEvent (s : Surroundings) (event : Event) (a : TuiApp) :
    a.modes.Entered (a.handleMenuEvent s event).2.modes := by
  rw [handleMenuEvent]
  split
  · exact .refl
  · split
    · rw [handleMainEvent]
      split
      · exact .refl
      · split
        · exact .refl
        · split
          · rw [onItemSelected]
            repeat' split
            all_goals first | exact .refl | exact modes_execute s _ _ a
          · exact .refl
    · exact .refl

theorem modes_handleNormalInput (s : Surroundings) (event : Event) (a : TuiApp) :
    a.modes.Entered (a.handleNormalInput s event).2.modes := by
  have hmenu := modes_handleMenuEvent s event a
  rw [handleNormalInput]
  split
  · exact hmenu
  · split
    · exact hmenu.trans (modes_executeKey s _ _)
    · exact hmenu

theorem modes_handlePrefixInput (s : Surroundings) (event : Event) (a : TuiApp) :
    a.modes.deactivatePrefix.Entered (a.handlePrefixInput s event).2.modes := by
  rw [handlePrefixInput]
  dsimp only
  split
  · next command _ =>
      exact modes_executeKey s command
        { a with sawEscape := false, modes := a.modes.deactivatePrefix }
  · split
    · exact .refl
    · exact .refl

theorem modes_releaseEscape (a : TuiApp) : a.releaseEscape.modes = a.modes := by
  rw [releaseEscape]
  split
  · exact modes_sendInput _ _
  · rfl

/-! ## One event -/

/-- The event is Ctrl-B, or the second half of Alt-B. -/
def Activates (a : TuiApp) (i : Input) : Prop :=
  a.bar.active = false ∧ (isPrefixKey i.2 = true ∨ a.sawEscape = true ∧ i.2 = .character (bytes "b"))

/-- The event is looked up as the key after the prefix key. -/
def Serves (a : TuiApp) (i : Input) : Prop :=
  ¬ a.Activates i ∧ a.bar.active = false ∧ i.2 ≠ .custom ∧ i.2 ≠ .key .escape ∧
    i.2 ≠ .character (bytes ":") ∧
      (a.modes.checkPrefixTimeout i.1.now).2.currentMode = .prefixMode

/-- What an event does to the modes, once the time of the prefix is checked. -/
theorem modes_step (a : TuiApp) (i : Input) :
    let checked := (a.checkPrefixTimeout i.1).modes
    (a.Activates i ∧ (a.step i).modes = checked.activatePrefix 1000 i.1.now) ∨
      (a.Serves i ∧ checked.deactivatePrefix.Entered (a.step i).modes) ∨
        (¬ a.Activates i ∧ ¬ a.Serves i ∧ checked.Entered (a.step i).modes) := by
  obtain ⟨s, event⟩ := i
  intro checked
  rw [step, handleInput]
  dsimp only
  have hbar' : (a.checkPrefixTimeout s).bar = a.bar := rfl
  have hsaw : (a.checkPrefixTimeout s).sawEscape = a.sawEscape := rfl
  rw [hbar', hsaw]
  by_cases hcustom : event = .custom
  · subst hcustom
    refine .inr (.inr ⟨?_, ?_, .refl⟩)
    · rintro ⟨-, h | h⟩
      · exact Bool.noConfusion h
      · exact Event.noConfusion h.2
    · exact fun h => h.2.2.1 rfl
  rw [if_neg hcustom]
  by_cases hbar : a.bar.active = true
  · rw [if_pos hbar]
    refine .inr (.inr ⟨?_, ?_, modes_handleBarEvent s event _⟩)
    · exact fun h => by simp [h.1] at hbar
    · exact fun h => by simp [h.2.1] at hbar
  rw [if_neg hbar]
  have hclosed : a.bar.active = false := Bool.eq_false_of_not_eq_true hbar
  by_cases hkey : isPrefixKey event = true
  · rw [if_pos hkey]
    exact .inl ⟨⟨hclosed, .inl hkey⟩, rfl⟩
  rw [if_neg hkey]
  by_cases hescape : event = .key .escape
  · subst hescape
    refine .inr (.inr ⟨?_, ?_, .refl⟩)
    · rintro ⟨-, h | h⟩
      · exact hkey h
      · exact Event.noConfusion h.2
    · exact fun h => h.2.2.2.1 rfl
  rw [if_neg hescape]
  by_cases halt : a.sawEscape = true ∧ event = .character (bytes "b")
  · rw [if_pos halt]
    exact .inl ⟨⟨hclosed, .inr halt⟩, rfl⟩
  rw [if_neg halt]
  have hnot : ¬ a.Activates (s, event) := by
    rintro ⟨-, h | h⟩
    · exact hkey h
    · exact halt h
  have hreleased := modes_releaseEscape (a.checkPrefixTimeout s)
  by_cases hcolon : event = .character (bytes ":")
  · rw [if_pos hcolon]
    exact .inr (.inr ⟨hnot, fun h => h.2.2.2.2.1 hcolon, Entered.of_eq hreleased⟩)
  rw [if_neg hcolon, handleByMode, hreleased]
  by_cases hmode : checked.currentMode = .prefixMode
  · refine .inr (.inl ⟨⟨hnot, hclosed, hcustom, hescape, hcolon, hmode⟩, ?_⟩)
    have hmode' : (a.checkPrefixTimeout s).modes.currentMode = .prefixMode := hmode
    simp only [hmode']
    have hserved := modes_handlePrefixInput s event (a.checkPrefixTimeout s).releaseEscape
    rw [hreleased] at hserved
    exact hserved
  · refine .inr (.inr ⟨hnot, fun h => hmode h.2.2.2.2.2, ?_⟩)
    have hinsert := modes_handleInsertInput event (a.checkPrefixTimeout s).releaseEscape
    have hnormal := modes_handleNormalInput s event (a.checkPrefixTimeout s).releaseEscape
    rw [hreleased] at hinsert hnormal
    split
    · next heq => exact absurd heq hmode
    · exact Entered.of_eq hinsert
    · exact hnormal
    · exact Entered.of_eq hreleased

/-- A key that is served is looked up after the prefix. -/
theorem Serves.handleInput {a : TuiApp} {i : Input} (h : a.Serves i) :
    a.handleInput i.1 i.2 =
      (a.checkPrefixTimeout i.1).releaseEscape.handlePrefixInput i.1 i.2 := by
  obtain ⟨hactivates, hbar, hcustom, hescape, hcolon, hmode⟩ := h
  have hkey : ¬ isPrefixKey i.2 = true := fun hkey => hactivates ⟨hbar, .inl hkey⟩
  have halt : ¬ (a.sawEscape = true ∧ i.2 = .character (bytes "b")) :=
    fun halt => hactivates ⟨hbar, .inr halt⟩
  have hmode' : (a.checkPrefixTimeout i.1).releaseEscape.modes.currentMode = .prefixMode := by
    rw [modes_releaseEscape]
    exact hmode
  have hbar' : ¬ (a.checkPrefixTimeout i.1).bar.active = true := by
    simp [checkPrefixTimeout, hbar]
  simp only [TuiApp.handleInput, hcustom, hbar', hkey, hescape, hcolon, if_false, handleByMode,
    hmode']
  exact if_neg halt

/-! ## Runs -/

theorem sound_step {a : TuiApp} (h : a.modes.Sound) (i : Input) : (a.step i).modes.Sound := by
  have hchecked : (a.checkPrefixTimeout i.1).modes.Sound := h.checkPrefixTimeout i.1.now
  rcases modes_step a i with ⟨-, heq⟩ | ⟨-, hentered⟩ | ⟨-, -, hentered⟩
  · rw [heq]
    exact hchecked.activatePrefix 1000 i.1.now
  · exact hentered.sound hchecked.deactivatePrefix
  · exact hentered.sound hchecked

/-- The event neither opens a prefix nor is looked up after one. -/
def Quiet (a : TuiApp) (i : Input) : Prop := ¬ a.Activates i ∧ ¬ a.Serves i

/-- The last event that opened a prefix, with nothing looked up since. -/
structure OpenedBy (start : TuiApp) (before pre : List Input) (j : Input) (mid : List Input) :
    Prop where
  split : before = pre ++ j :: mid
  activates : (Runs.run step start pre).Activates j
  quiet : Runs.Always step Quiet (Runs.run step start (pre ++ [j])) mid

/-- In the prefix mode the prefix is as old as the event that opened it. -/
structure Opened (start : TuiApp) (before : List Input) : Prop where
  sound : (Runs.run step start before).modes.Sound
  opened : (Runs.run step start before).modes.currentMode = .prefixMode →
    ∃ pre j mid, OpenedBy start before pre j mid ∧
      (Runs.run step start before).modes.prefixTime = j.1.now ∧
      (Runs.run step start before).modes.prefixTimeoutMs = 1000

theorem opened_run {start : TuiApp} (hsound : start.modes.Sound)
    (hmode : start.modes.currentMode ≠ .prefixMode) (before : List Input) :
    Opened start before := by
  induction before using List.reverseRecOn with
  | nil => exact ⟨hsound, fun h => absurd h hmode⟩
  | append_singleton before i ih =>
      have hrun : Runs.run step start (before ++ [i]) = (Runs.run step start before).step i := by
        rw [Runs.run_append]
        rfl
      refine ⟨hrun ▸ sound_step ih.sound i, fun hlast => ?_⟩
      have hchecked : ((Runs.run step start before).checkPrefixTimeout i.1).modes.Sound :=
        ih.sound.checkPrefixTimeout i.1.now
      rw [hrun] at hlast ⊢
      rcases modes_step (Runs.run step start before) i with
        ⟨hactivates, heq⟩ | ⟨-, hentered⟩ | ⟨hactivates, hserves, hentered⟩
      · refine ⟨before, i, [], ⟨rfl, hactivates, trivial⟩, ?_⟩
        rw [heq]
        exact prefixTime_activatePrefix _ 1000 i.1.now
      · have heq := hentered.eq_of_prefixMode hlast
        rw [heq] at hlast
        exact absurd hlast hchecked.ne_of_deactivatePrefix
      · have heq := hentered.eq_of_prefixMode hlast
        rw [heq] at hlast ⊢
        obtain ⟨hsame, -⟩ := ih.sound.of_checkPrefixTimeout hlast
        have hsame' : ((Runs.run step start before).checkPrefixTimeout i.1).modes =
            (Runs.run step start before).modes := hsame
        rw [hsame'] at hlast ⊢
        obtain ⟨pre, j, mid, hby, htime⟩ := ih.opened hlast
        refine ⟨pre, j, mid ++ [i], ⟨?_, hby.activates, ?_⟩, htime⟩
        · rw [hby.split, List.append_assoc, List.cons_append]
        · rw [Runs.always_append]
          refine ⟨hby.quiet, ?_, trivial⟩
          rw [← Runs.run_append, List.append_assoc, List.singleton_append, ← hby.split]
          exact ⟨hactivates, hserves⟩

theorem sound_initial (store : Bool) : (initial store).modes.Sound :=
  ⟨by simp [FlagRight, initial], by simp [Apart, initial]⟩

/-- In every run the prefix flag is up exactly in the prefix mode. A key that is looked up as the
one after the prefix ends it, came within a second of the event that opened it, and is the first
one that is looked up since. -/
theorem prefix_serves_one_key (store : Bool) (before : List Input) (i : Input) :
    let a := Runs.run step (initial store) before
    (a.modes.prefixActive = true ↔ a.modes.currentMode = .prefixMode) ∧
      (a.Serves i →
        a.handleInput i.1 i.2 =
            (a.checkPrefixTimeout i.1).releaseEscape.handlePrefixInput i.1 i.2 ∧
          (a.step i).modes.currentMode ≠ .prefixMode ∧
          ∃ pre j mid, OpenedBy (initial store) before pre j mid ∧
            (i.1.now - j.1.now).tdiv 1000000 < 1000) := by
  intro a
  have hopened := opened_run (sound_initial store) (by simp [initial]) before
  refine ⟨hopened.sound.flag, fun hserves => ?_⟩
  obtain ⟨hsame, hyoung⟩ := hopened.sound.of_checkPrefixTimeout hserves.2.2.2.2.2
  have hprefix : a.modes.currentMode = .prefixMode := hsame ▸ hserves.2.2.2.2.2
  refine ⟨hserves.handleInput, ?_, ?_⟩
  · have hchecked : (a.checkPrefixTimeout i.1).modes.Sound :=
      hopened.sound.checkPrefixTimeout i.1.now
    intro hlast
    rcases modes_step a i with ⟨hactivates, -⟩ | ⟨-, hentered⟩ | ⟨-, hnot, -⟩
    · exact hserves.1 hactivates
    · rw [hentered.eq_of_prefixMode hlast] at hlast
      exact hchecked.ne_of_deactivatePrefix hlast
    · exact hnot hserves
  · obtain ⟨pre, j, mid, hby, htime, htimeout⟩ := hopened.opened hprefix
    refine ⟨pre, j, mid, hby, ?_⟩
    rw [elapsedMs, htime, htimeout] at hyoung
    exact hyoung

end TuiApp

end Nazg.Tui

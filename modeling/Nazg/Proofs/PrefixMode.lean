import Nazg.Lib.Runs
import Nazg.Tui.ModeManager

/-!
# The prefix flag and the prefix mode

The flag is raised together with the mode by `activate_prefix` and dropped together with it
by `deactivate_prefix` and by every entry into another mode. Only an entry into the prefix
mode that is not an activation, by `enter` or on the way back to it, leaves the flag behind.
-/

namespace Nazg.Tui.ModeManager

open Lib

/-- The flag is up exactly in the prefix mode. -/
def FlagRight (m : ModeManager) : Prop := m.prefixActive = true ↔ m.currentMode = .prefixMode

/-- The call does not enter the prefix mode, unless to activate it. -/
def Calm (m : ModeManager) : Call → Prop
  | .enter mode => mode = .prefixMode → m.currentMode = .prefixMode
  | .exitToPrevious => m.previousMode = .prefixMode → m.currentMode = .prefixMode
  | _ => True

/-! ## One call -/

theorem flagRight_enter {m : ModeManager} (h : m.FlagRight) (mode : Mode) :
    (m.enter mode).2.FlagRight ↔ (mode = .prefixMode → m.currentMode = .prefixMode) := by
  rw [enter]
  split
  · next heq => simp [heq, h]
  · next hne =>
      rw [FlagRight] at h ⊢
      by_cases hmode : mode = .prefixMode
      · subst hmode
        simp [hne, h]
      · simp [hmode]

theorem flagRight_exitToPrevious {m : ModeManager} (h : m.FlagRight) :
    m.exitToPrevious.2.FlagRight ↔
      (m.previousMode = .prefixMode → m.currentMode = .prefixMode) := by
  rw [exitToPrevious]
  split
  · next heq => simp [heq, h]
  · exact flagRight_enter h m.previousMode

theorem currentMode_activatePrefix (m : ModeManager) (timeoutMs now : Int) :
    (m.activatePrefix timeoutMs now).currentMode = .prefixMode := by
  simp only [activatePrefix, enter]
  split
  · next heq => exact heq
  · rfl

theorem prefixActive_activatePrefix (m : ModeManager) (timeoutMs now : Int) :
    (m.activatePrefix timeoutMs now).prefixActive = true := by
  simp only [activatePrefix, enter]
  split
  · rfl
  · rfl

theorem flagRight_activatePrefix (m : ModeManager) (timeoutMs now : Int) :
    (m.activatePrefix timeoutMs now).FlagRight := by
  simp [FlagRight, currentMode_activatePrefix, prefixActive_activatePrefix]

/-- The prefix mode is not its own previous mode. -/
def Apart (m : ModeManager) : Prop := m.currentMode = .prefixMode → m.previousMode ≠ .prefixMode

theorem apart_enter {m : ModeManager} (h : m.Apart) (mode : Mode) : (m.enter mode).2.Apart := by
  rw [enter]
  split
  · exact h
  · next hne =>
      intro hcurrent hprevious
      have hsame : m.currentMode = mode := hprevious.trans hcurrent.symm
      exact hne hsame

theorem apart_exitToPrevious {m : ModeManager} (h : m.Apart) : m.exitToPrevious.2.Apart := by
  rw [exitToPrevious]
  split
  · exact h
  · exact apart_enter h m.previousMode

theorem flagRight_deactivatePrefix {m : ModeManager} (h : m.Apart) :
    m.deactivatePrefix.FlagRight := by
  simp only [deactivatePrefix]
  split
  · next hcurrent =>
      have hne : m.currentMode ≠ m.previousMode := fun heq => h hcurrent (heq ▸ hcurrent)
      simp [FlagRight, exitToPrevious, enter, hne, h hcurrent]
  · next hne => simp [FlagRight, hne]

theorem apart_deactivatePrefix {m : ModeManager} (h : m.Apart) : m.deactivatePrefix.Apart := by
  simp only [deactivatePrefix]
  split
  · exact apart_exitToPrevious h
  · exact h

theorem checkPrefixTimeout_cases (m : ModeManager) (now : Int) :
    m.checkPrefixTimeout now = (false, m) ∨
      m.checkPrefixTimeout now = (true, m.deactivatePrefix) := by
  rw [checkPrefixTimeout]
  split
  · exact .inl rfl
  · split
    · exact .inr rfl
    · exact .inl rfl

theorem apart_step (m : ModeManager) (c : Call) (h : m.Apart) : (m.step c).Apart := by
  cases c with
  | enter mode => exact apart_enter h mode
  | exitToPrevious => exact apart_exitToPrevious h
  | activatePrefix timeoutMs now =>
      let raised : ModeManager :=
        { m with prefixActive := true, prefixTimeoutMs := timeoutMs, prefixTime := now }
      have hraised : raised.Apart := h
      exact apart_enter hraised .prefixMode
  | deactivatePrefix => exact apart_deactivatePrefix h
  | checkPrefixTimeout now =>
      rcases checkPrefixTimeout_cases m now with hsame | hended
      · rw [step, hsame]
        exact h
      · rw [step, hended]
        exact apart_deactivatePrefix h

/-- A call keeps the flag right exactly if it is calm. -/
theorem flagRight_step (m : ModeManager) (c : Call) (hapart : m.Apart) (h : m.FlagRight) :
    (m.step c).FlagRight ↔ m.Calm c := by
  cases c with
  | enter mode => exact flagRight_enter h mode
  | exitToPrevious => exact flagRight_exitToPrevious h
  | activatePrefix timeoutMs now =>
      exact iff_of_true (flagRight_activatePrefix m timeoutMs now) trivial
  | deactivatePrefix => exact iff_of_true (flagRight_deactivatePrefix hapart) trivial
  | checkPrefixTimeout now =>
      refine iff_of_true ?_ trivial
      rcases checkPrefixTimeout_cases m now with hsame | hended
      · rw [step, hsame]
        exact h
      · rw [step, hended]
        exact flagRight_deactivatePrefix hapart

/-! ## From an activation to its end -/

def Call.IsActivation : Call → Prop
  | .activatePrefix _ _ => True
  | _ => False

/-- The call ends the prefix. -/
def Ends (m : ModeManager) : Call → Prop
  | .deactivatePrefix => True
  | .checkPrefixTimeout now => (m.checkPrefixTimeout now).1 = true
  | _ => False

/-- The prefix mode, with a mode to return to. -/
structure Away (m : ModeManager) (mode : Mode) : Prop where
  current : m.currentMode = .prefixMode
  previous : m.previousMode = mode
  ne : mode ≠ .prefixMode

/-- The first activation, from a mode of its own. -/
theorem away_activatePrefix {m : ModeManager} (h : m.currentMode ≠ .prefixMode)
    (timeoutMs now : Int) : (m.activatePrefix timeoutMs now).Away m.currentMode := by
  simp only [activatePrefix, enter, if_neg h]
  exact ⟨rfl, rfl, h⟩

/-- A further one. -/
theorem Away.activatePrefix {m : ModeManager} {mode : Mode} (h : m.Away mode)
    (timeoutMs now : Int) : (m.activatePrefix timeoutMs now).Away mode := by
  simp only [ModeManager.activatePrefix, enter, if_pos h.current]
  exact ⟨h.current, h.previous, h.ne⟩

theorem Away.run {m : ModeManager} {mode : Mode} {acts : List Call} (h : m.Away mode)
    (hacts : ∀ c ∈ acts, c.IsActivation) : (Runs.run step m acts).Away mode := by
  induction acts generalizing m with
  | nil => exact h
  | cons c acts ih =>
      have hfirst := hacts c List.mem_cons_self
      refine ih ?_ fun c' hc' => hacts c' (List.mem_cons_of_mem c hc')
      cases c with
      | activatePrefix timeoutMs now => exact h.activatePrefix timeoutMs now
      | enter mode => exact hfirst.elim
      | exitToPrevious => exact hfirst.elim
      | deactivatePrefix => exact hfirst.elim
      | checkPrefixTimeout now => exact hfirst.elim

theorem Away.deactivatePrefix {m : ModeManager} {mode : Mode} (h : m.Away mode) :
    m.deactivatePrefix.currentMode = mode := by
  obtain ⟨hcurrent, rfl, hne⟩ := h
  simp [ModeManager.deactivatePrefix, exitToPrevious, enter, hcurrent, Ne.symm hne]

theorem Away.ends {m : ModeManager} {mode : Mode} {c : Call} (h : m.Away mode)
    (hends : m.Ends c) : (m.step c).currentMode = mode := by
  cases c with
  | deactivatePrefix => exact h.deactivatePrefix
  | checkPrefixTimeout now =>
      rcases checkPrefixTimeout_cases m now with hsame | hended
      · rw [Ends, hsame] at hends
        exact Bool.noConfusion hends
      · rw [step, hended]
        exact h.deactivatePrefix
  | enter mode => exact hends.elim
  | exitToPrevious => exact hends.elim
  | activatePrefix timeoutMs now => exact hends.elim

/-! ## Runs -/

/-- What is promised of the prefix, for a run from the given state. -/
structure KeepsPrefix (m : ModeManager) (calls : List Call) : Prop where
  flag : Runs.Throughout step FlagRight m calls
  /-- From the first activation, with nothing but further ones before the end. -/
  returns : ∀ before acts last after, calls = before ++ (acts ++ last :: after) → acts ≠ [] →
    (∀ c ∈ acts, c.IsActivation) → (Runs.run step m before).prefixActive = false →
    Ends (Runs.run step m (before ++ acts)) last →
    (Runs.run step m (before ++ acts ++ [last])).currentMode = (Runs.run step m before).currentMode

/-- The promise is kept by a run exactly if no call of it enters the prefix mode without
activating it. -/
theorem keepsPrefix_iff (calls : List Call) :
    KeepsPrefix {} calls ↔ Runs.Always step Calm {} calls := by
  have hflag : Runs.Throughout step FlagRight {} calls ↔ Runs.Always step Calm {} calls :=
    Runs.throughout_iff_always apart_step flagRight_step (by simp [Apart]) (by simp [FlagRight])
  refine ⟨fun h => hflag.1 h.flag, fun h => ⟨hflag.2 h, ?_⟩⟩
  intro before acts last after hcalls hne hacts hinactive hends
  have hright := Runs.throughout_iff_prefix.1 (hflag.2 h) before _ hcalls
  have hmode : (Runs.run step {} before).currentMode ≠ .prefixMode := by
    intro hmode
    rw [hright.2 hmode] at hinactive
    exact Bool.noConfusion hinactive
  cases acts with
  | nil => exact absurd rfl hne
  | cons c acts =>
      have hfirst := hacts c List.mem_cons_self
      have hrest : ∀ c' ∈ acts, c'.IsActivation := fun c' hc' =>
        hacts c' (List.mem_cons_of_mem c hc')
      rw [Runs.run_append] at hends
      rw [Runs.run_append, Runs.run_append]
      cases c with
      | activatePrefix timeoutMs now =>
          exact ((away_activatePrefix hmode timeoutMs now).run hrest).ends hends
      | enter mode => exact hfirst.elim
      | exitToPrevious => exact hfirst.elim
      | deactivatePrefix => exact hfirst.elim
      | checkPrefixTimeout now => exact hfirst.elim

/-- A prefix, a command line, and the way back from it. -/
theorem prefix_command_not_keepsPrefix :
    ¬ KeepsPrefix {} [.activatePrefix 1000 0, .enter .command, .exitToPrevious] := by
  intro h
  have hlast := Runs.throughout_iff_prefix.1 h.flag _ [] (List.append_nil _).symm
  revert hlast
  simp [FlagRight, Runs.run, step, activatePrefix, enter, exitToPrevious]

end Nazg.Tui.ModeManager

import Mathlib.Data.Int.Init

/-!
# The modes of the terminal UI

The manager knows the current mode, one previous mode, and whether a prefix key is waiting
for its second key. The times are those of a steady clock, in nanoseconds.
-/

namespace Nazg.Tui

inductive Mode where
  | normal
  | insert
  | visual
  | command
  | prefixMode
  deriving DecidableEq

structure ModeManager where
  currentMode : Mode := .insert
  previousMode : Mode := .insert
  prefixActive : Bool := false
  prefixTime : Int := 0
  prefixTimeoutMs : Int := 1000
  deriving DecidableEq

namespace ModeManager

/-- `enter`: whether the mode changed. -/
def enter (mode : Mode) (m : ModeManager) : Bool × ModeManager :=
  if m.currentMode = mode then (false, m)
  else
    (true,
      { m with
        previousMode := m.currentMode
        currentMode := mode
        prefixActive := if mode ≠ .prefixMode then false else m.prefixActive })

def exitToPrevious (m : ModeManager) : Bool × ModeManager :=
  if m.currentMode = m.previousMode then (false, m) else m.enter m.previousMode

def activatePrefix (timeoutMs now : Int) (m : ModeManager) : ModeManager :=
  (enter .prefixMode
    { m with prefixActive := true, prefixTimeoutMs := timeoutMs, prefixTime := now }).2

def deactivatePrefix (m : ModeManager) : ModeManager :=
  let m := { m with prefixActive := false }
  if m.currentMode = .prefixMode then m.exitToPrevious.2 else m

/-- `duration_cast` to milliseconds. -/
def elapsedMs (m : ModeManager) (now : Int) : Int := (now - m.prefixTime).tdiv 1000000

/-- `check_prefix_timeout`: whether the prefix has timed out. -/
def checkPrefixTimeout (now : Int) (m : ModeManager) : Bool × ModeManager :=
  if ¬ m.prefixActive then (false, m)
  else if m.prefixTimeoutMs ≤ m.elapsedMs now then (true, m.deactivatePrefix)
  else (false, m)

/-- A call of the manager. -/
inductive Call where
  | enter (mode : Mode)
  | exitToPrevious
  | activatePrefix (timeoutMs now : Int)
  | deactivatePrefix
  | checkPrefixTimeout (now : Int)

def step (m : ModeManager) : Call → ModeManager
  | .enter mode => (m.enter mode).2
  | .exitToPrevious => m.exitToPrevious.2
  | .activatePrefix timeoutMs now => m.activatePrefix timeoutMs now
  | .deactivatePrefix => m.deactivatePrefix
  | .checkPrefixTimeout now => (m.checkPrefixTimeout now).2

end ModeManager

end Nazg.Tui

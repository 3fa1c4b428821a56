import Nazg.Lib.Decimal

/-!
# The windows of the terminal UI

The context holds its windows in a vector, and the active window and the one that was active
before it as indices into that vector. Every window has a serial number, which stands for its
address, and a history keeps what `rename-window` did.
-/

namespace Nazg.Tui

open Lib

structure TuiContext.Window where
  serial : Nat
  name : Bytes
  deriving DecidableEq

structure TuiContext where
  windows : List TuiContext.Window := []
  activeWindowIndex : Int := 0
  lastWindowIndex : Int := 0
  created : Nat := 0
  /-- The windows that were renamed and their names, the latest first. -/
  renames : List (Nat × Bytes) := []

namespace TuiContext

def windowAt (m : TuiContext) (index : Int) : Option Window :=
  if index < 0 then none else m.windows[index.toNat]?

def activeWindow (m : TuiContext) : Option Window := m.windowAt m.activeWindowIndex

/-- The name that a window gets for its place. -/
def windowName (index : Nat) : Bytes := bytes "win-" ++ decimal (index + 1)

def createWindow (m : TuiContext) : TuiContext :=
  { m with
    windows := m.windows ++ [⟨m.created, windowName m.windows.length⟩]
    lastWindowIndex := m.activeWindowIndex
    activeWindowIndex := m.windows.length
    created := m.created + 1 }

/-- An index after an erasure has left `size` windows. -/
def adjust (size : Nat) (index : Int) : Int :=
  let index := if index ≥ size then (size : Int) - 1 else index
  if index < 0 then 0 else index

/-- The last step of `close_window`: all windows that are left get the names of their places. -/
def renumber (windows : List Window) : List Window :=
  windows.mapIdx fun i window => { window with name := windowName i }

def closeWindow (serial : Nat) (m : TuiContext) : Bool × TuiContext :=
  if m.windows.length ≤ 1 then (false, m)
  else
    match m.windows.findIdx? fun window => window.serial = serial with
    | none => (false, m)
    | some place =>
        let windows := m.windows.eraseIdx place
        (true,
          { m with
            windows := renumber windows
            activeWindowIndex := adjust windows.length m.activeWindowIndex
            lastWindowIndex := adjust windows.length m.lastWindowIndex })

def closeActiveWindow (m : TuiContext) : Bool × TuiContext :=
  match m.activeWindow with
  | none => (false, m)
  | some window => m.closeWindow window.serial

def focusWindow (index : Int) (m : TuiContext) : Bool × TuiContext :=
  if index < 0 ∨ index ≥ m.windows.length then (false, m)
  else if m.activeWindowIndex = index then (true, m)
  else (true, { m with lastWindowIndex := m.activeWindowIndex, activeWindowIndex := index })

def focusNextWindow (m : TuiContext) : Bool × TuiContext :=
  if m.windows.length ≤ 1 then (false, m)
  else
    (true,
      { m with
        lastWindowIndex := m.activeWindowIndex
        activeWindowIndex := (m.activeWindowIndex + 1).tmod m.windows.length })

def focusPreviousWindow (m : TuiContext) : Bool × TuiContext :=
  if m.windows.length ≤ 1 then (false, m)
  else
    let index := m.activeWindowIndex - 1
    (true,
      { m with
        lastWindowIndex := m.activeWindowIndex
        activeWindowIndex := if index < 0 then (m.windows.length : Int) - 1 else index })

/-- `std::clamp` to the indices of the windows. -/
def clamped (m : TuiContext) (index : Int) : Int :=
  if index < 0 then 0
  else if (m.windows.length : Int) - 1 < index then (m.windows.length : Int) - 1
  else index

def focusLastWindow (m : TuiContext) : Bool × TuiContext :=
  if m.windows.length ≤ 1 ∨ m.lastWindowIndex = m.activeWindowIndex then (false, m)
  else
    (true,
      { m with
        lastWindowIndex := m.activeWindowIndex
        activeWindowIndex := m.clamped m.lastWindowIndex })

/-- The command `rename-window`. -/
def renameWindow (args : List Bytes) (m : TuiContext) : Bool × TuiContext :=
  match m.activeWindow with
  | none => (false, m)
  | some window =>
      match args with
      | [] => (false, m)
      | name :: _ =>
          (true,
            { m with
              windows := m.windows.set m.activeWindowIndex.toNat { window with name := name }
              renames := (window.serial, name) :: m.renames })

inductive Call where
  | createWindow
  | closeWindow (serial : Nat)
  | closeActiveWindow
  | focusWindow (index : Int)
  | focusNextWindow
  | focusPreviousWindow
  | focusLastWindow
  | renameWindow (args : List Bytes)

/-- What a call returns, and what it leaves. -/
def perform (m : TuiContext) : Call → Bool × TuiContext
  | .createWindow => (true, m.createWindow)
  | .closeWindow serial => m.closeWindow serial
  | .closeActiveWindow => m.closeActiveWindow
  | .focusWindow index => m.focusWindow index
  | .focusNextWindow => m.focusNextWindow
  | .focusPreviousWindow => m.focusPreviousWindow
  | .focusLastWindow => m.focusLastWindow
  | .renameWindow args => m.renameWindow args

def step (m : TuiContext) (c : Call) : TuiContext := (m.perform c).2

end TuiContext

end Nazg.Tui

import Nazg.Lib.OrdMap
import Nazg.Lib.Bytes
import Nazg.Tui.ModeManager

/-!
# The menus of the terminal UI

The menus that are open form a stack, the current one on top, and a forward stack holds the
ids of those that were left by `back`. What the factories make is part of a call; every menu
that is built has a serial number, and a log holds what was called on which menu.
-/

namespace Nazg.Tui

open Lib

/-- What is called on a menu. -/
inductive MenuCall where
  | build
  | onLoad
  | onUnload
  | onResume
  | saveState
  | restoreState
  deriving DecidableEq

structure Menu where
  serial : Nat
  preserveState : Bool
  /-- What `save_state` returns. -/
  state : OrdMap Bytes Bytes

structure MenuStackEntry where
  menu : Menu
  savedState : OrdMap Bytes Bytes := .empty
  menuId : Bytes

/-- What a factory makes, but for the serial number; nothing for no menu. -/
abbrev Made := Option (Bool × OrdMap Bytes Bytes)

structure MenuManager where
  factories : List Bytes
  /-- The modes of the context, if it is set. -/
  context : Option ModeManager
  /-- The current menu first. -/
  stack : List MenuStackEntry := []
  /-- The latest id first. -/
  forwardStack : List Bytes := []
  built : Nat := 0
  log : List (Nat × MenuCall) := []

namespace MenuManager

def call (menu : Menu) (c : MenuCall) (m : MenuManager) : MenuManager :=
  { m with log := m.log ++ [(menu.serial, c)] }

/-- `update_mode_for_active_menu`. -/
def updateMode (m : MenuManager) : MenuManager :=
  { m with
    context := m.context.map fun modes =>
      (modes.enter (if m.stack = [] then .insert else .normal)).2 }

/-- The state of the current menu is saved, if it wants that. -/
def saveCurrent (m : MenuManager) : MenuManager :=
  match m.stack with
  | [] => m
  | current :: rest =>
      if current.menu.preserveState then
        call current.menu .saveState
          { m with stack := { current with savedState := current.menu.state } :: rest }
      else m

def unloadCurrent (m : MenuManager) : MenuManager :=
  match m.stack with
  | [] => m
  | current :: _ => m.saveCurrent.call current.menu .onUnload

/-- `load`: whether the menu was loaded. -/
def load (menuId : Bytes) (made : Made) (m : MenuManager) : Bool × MenuManager :=
  if menuId ∉ m.factories then (false, m)
  else
    let m := m.unloadCurrent
    match made with
    | none => (false, m)
    | some (preserveState, state) =>
        if m.context = none then (false, m)
        else
          let menu : Menu := ⟨m.built, preserveState, state⟩
          let m := (call menu .onLoad (call menu .build { m with built := m.built + 1 }))
          (true,
            updateMode { m with stack := { menu := menu, menuId := menuId } :: m.stack, forwardStack := [] })

def back (m : MenuManager) : Bool × MenuManager :=
  match m.unloadCurrent.stack with
  | current :: previous :: rest =>
      let m := { m.unloadCurrent with
        stack := previous :: rest
        forwardStack := current.menuId :: m.forwardStack }
      let m :=
        if previous.menu.preserveState ∧ previous.savedState.keys ≠ [] then
          m.call previous.menu .restoreState
        else m
      (true, updateMode (m.call previous.menu .onResume))
  | _ => (false, m)

def forward (made : Made) (m : MenuManager) : Bool × MenuManager :=
  match m.forwardStack with
  | [] => (false, m)
  | menuId :: saved =>
      let loaded := load menuId made { m with forwardStack := saved }
      let m := { loaded.2 with forwardStack := saved }
      (loaded.1, if loaded.1 then m.updateMode else m)

/-- From the bottom of the stack to the top. -/
def clearStack (m : MenuManager) : MenuManager :=
  let unloaded := m.stack.reverse.foldl (fun m entry => call entry.menu .onUnload m) m
  updateMode { unloaded with stack := [], forwardStack := [] }

inductive Call where
  | load (menuId : Bytes) (made : Made)
  | back
  | forward (made : Made)
  | clearStack

/-- What a call returns, and what it leaves. -/
def perform (m : MenuManager) : Call → Bool × MenuManager
  | .load menuId made => m.load menuId made
  | .back => m.back
  | .forward made => m.forward made
  | .clearStack => (true, m.clearStack)

def step (m : MenuManager) (c : Call) : MenuManager := (m.perform c).2

end MenuManager

end Nazg.Tui

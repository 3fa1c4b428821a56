import Mathlib.Logic.Relation
import Nazg.Tui.Layout

/-!
# A window of panes

A window owns its panes and arranges them in a layout, and points to the active one and to
the one it is zoomed to. A pane is named by a serial number, which stands for its address.
How the layout removes a pane is a parameter of the operations here, since a removal beside a
split goes wrong (`Link.removePane`).
-/

namespace Nazg.Tui

structure SavedLayout where
  snapshot : Snapshot
  activeLeafIndex : Nat

structure Window where
  panes : List Nat
  activePane : Option Nat
  layout : Link Nat
  zoomed : Bool := false
  zoomTarget : Option Nat := none
  savedLayout : Option SavedLayout := none
  /-- How many panes were made. -/
  made : Nat

namespace Window

/-- A window is made with a first pane. -/
def initial : Window :=
  { panes := [0], activePane := some 0, layout := .leaf 0, made := 1 }

def unzoom (w : Window) : Window := { w with zoomed := false, zoomTarget := none }

def setActiveLocked (pane : Option Nat) (w : Window) : Window :=
  { w with
    activePane := pane
    zoomTarget := if pane.isSome ∧ w.zoomed = true then pane else w.zoomTarget }

/-- The new pane, or nothing if there is none. -/
def splitActive (direction : SplitDirection) (w : Window) : Option Nat × Window :=
  match w.activePane with
  | none => (none, w)
  | some active =>
      let w := if w.zoomed then w.unzoom else w
      let newPane := w.made
      let w := { w with panes := w.panes ++ [newPane], made := newPane + 1 }
      let (split, layout) := w.layout.splitPane active newPane direction
      if split then (some newPane, setActiveLocked (some newPane) { w with layout := layout })
      else
        (none, { w with layout := layout, panes := w.panes.filter (fun pane => pane ≠ newPane) })

def closeActive (removePane : Link Nat → Nat → Bool × Link Nat) (w : Window) : Bool × Window :=
  match w.activePane with
  | none => (false, w)
  | some active =>
      if w.panes.length ≤ 1 then (false, w)
      else
        let w := if w.zoomed ∧ w.zoomTarget = some active then w.unzoom else w
        let (removed, layout) := removePane w.layout active
        let w := { w with layout := layout }
        if removed then
          (true,
            setActiveLocked layout.collectPanes.head? { w with panes := w.panes.erase active })
        else (false, w)

/-- What `close_active` hands to the reaper: the pane that it closed, if the window owned it. -/
def closedPane (removePane : Link Nat → Nat → Bool × Link Nat) (w : Window) : List Nat :=
  match w.activePane with
  | none => []
  | some active => if (w.closeActive removePane).1 ∧ active ∈ w.panes then [active] else []

def navigate (direction : Char) (w : Window) : Bool × Window :=
  match w.activePane with
  | none => (false, w)
  | some active =>
      match w.layout.getPaneInDirection active direction with
      | none => (false, w)
      | some next => (true, setActiveLocked (some next) w)

def setActive (pane : Nat) (w : Window) : Window := setActiveLocked (some pane) w

def saveLayout (w : Window) : Bool × Window :=
  if w.layout = .null ∨ w.panes = [] then (false, w)
  else
    let snapshot := w.layout.snapshot
    if snapshot.leafCount = 0 then (false, w)
    else
      let leaves := w.layout.collectPanes
      -- The index of the active pane among the leaves, 0 where it is none of them.
      let activeIndex := (w.activePane.bind fun pane => leaves.idxOf? pane).getD 0
      (true, { w with savedLayout := some ⟨snapshot, activeIndex⟩ })

def restoreLayout (w : Window) : Bool × Window :=
  match w.savedLayout with
  | none => (false, w)
  | some saved =>
      if saved.snapshot.leafCount = 0 then (false, w)
      else
        let newPanes := List.range' w.made saved.snapshot.leafCount
        let w := { w with made := w.made + saved.snapshot.leafCount }
        let (restored, layout) := saved.snapshot.restore newPanes
        if restored then
          let activeIndex :=
            if saved.activeLeafIndex ≥ newPanes.length then 0 else saved.activeLeafIndex
          (true,
            setActiveLocked newPanes[activeIndex]?
              { w.unzoom with panes := newPanes, layout := layout })
        else (false, w)

/-- What `restore_layout` hands to the reaper: the panes that are replaced. -/
def replacedPanes (w : Window) : List Nat := if w.restoreLayout.1 then w.panes else []

def removePane (pane : Nat) (w : Window) : Window :=
  let w := if w.zoomTarget = some pane then w.unzoom else w
  { w with panes := w.panes.filter (fun p => p ≠ pane) }

def toggleZoom (w : Window) : Bool × Window :=
  match w.activePane with
  | none => (false, w)
  | some active =>
      if w.zoomed then (true, w.unzoom)
      else (true, { w with zoomed := true, zoomTarget := some active })

inductive Call where
  | splitActive (direction : SplitDirection)
  | closeActive
  | navigate (direction : Char)
  | setActive (pane : Nat)
  | toggleZoom
  | saveLayout
  | restoreLayout
  | removePane (pane : Nat)

def step (removePane : Link Nat → Nat → Bool × Link Nat) (w : Window) : Call → Window
  | .splitActive direction => (w.splitActive direction).2
  | .closeActive => (w.closeActive removePane).2
  | .navigate direction => (w.navigate direction).2
  | .setActive pane => w.setActive pane
  | .toggleZoom => w.toggleZoom.2
  | .saveLayout => w.saveLayout.2
  | .restoreLayout => w.restoreLayout.2
  | .removePane pane => w.removePane pane

end Window

/-!
## The pane reaper

Panes are closed by a worker with a queue under a mutex and a condition variable. A step is a
section under the mutex, or what a thread does outside of it: a notification, the end of a
`join`, the release of a pane. Any thread may call at any time, and the worker may wake up
without being notified.

The panes that were accepted and those that were released are kept in their order.
-/

inductive Worker (π : Type*) where
  /-- It is about to take the mutex. -/
  | checking
  /-- It waits for the condition variable. -/
  | waiting
  | releasing (pane : π)
  | finished

/-- What is left of a call that has done its section. -/
inductive ReaperCall where
  /-- It is about to notify, and then to join if it is a `shutdown`. -/
  | notifying (joins : Bool)
  | joining

structure PaneReaper (π : Type*) where
  queue : List π := []
  stop : Bool := false
  worker : Worker π := .checking
  calls : List ReaperCall := []
  accepted : List π := []
  released : List π := []

namespace PaneReaper

variable {π : Type*}

/-- The section of `enqueue`. -/
def enqueue (pane : Option π) (s : PaneReaper π) : PaneReaper π :=
  match pane with
  | none => s
  | some pane =>
      if s.stop then s
      else
        { s with
          queue := s.queue ++ [pane]
          accepted := s.accepted ++ [pane]
          calls := .notifying false :: s.calls }

/-- The section of `shutdown`; only the first call joins. -/
def shutdown (s : PaneReaper π) : PaneReaper π :=
  if s.stop then s else { s with stop := true, calls := .notifying true :: s.calls }

/-- `notify_one`: the worker is the only one that waits. -/
def notify (s : PaneReaper π) : PaneReaper π :=
  match s.worker with
  | .waiting => { s with worker := .checking }
  | _ => s

/-- What a call still does after its notification. -/
def afterNotify (joins : Bool) : List ReaperCall := if joins then [.joining] else []

/-- The section of `worker_loop`. -/
def turn (s : PaneReaper π) : PaneReaper π :=
  match s.queue with
  | [] => { s with worker := if s.stop then .finished else .waiting }
  | pane :: queue => { s with queue := queue, worker := .releasing pane }

def release (pane : π) (s : PaneReaper π) : PaneReaper π :=
  { s with worker := .checking, released := s.released ++ [pane] }

/-- What the threads do by themselves. -/
inductive Goes (s : PaneReaper π) : PaneReaper π → Prop where
  | notify {before after : List ReaperCall} {joins : Bool} :
      s.calls = before ++ .notifying joins :: after →
      Goes s { s.notify with calls := before ++ afterNotify joins ++ after }
  | join {before after : List ReaperCall} :
      s.calls = before ++ .joining :: after → s.worker = .finished →
      Goes s { s with calls := before ++ after }
  | turn : s.worker = .checking → Goes s s.turn
  | release {pane : π} : s.worker = .releasing pane → Goes s (s.release pane)

/-- Any step: besides those, a thread calls or the worker wakes up. -/
inductive Step (s : PaneReaper π) : PaneReaper π → Prop where
  | goes {s' : PaneReaper π} : Goes s s' → Step s s'
  | enqueue (pane : Option π) : Step s (s.enqueue pane)
  | shutdown : Step s s.shutdown
  | wake : s.worker = .waiting → Step s { s with worker := .checking }

def Reachable (s : PaneReaper π) : Prop := Relation.ReflTransGen Step {} s

/-- The pane that the worker has taken. -/
def held (s : PaneReaper π) : List π :=
  match s.worker with
  | .releasing pane => [pane]
  | _ => []

end PaneReaper

end Nazg.Tui

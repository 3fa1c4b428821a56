import Nazg.Lib.OrdMap
import Nazg.Lib.Words
import Nazg.Lib.Writes
import Nazg.Tui.ModeManager

/-!
# The keys of the terminal UI

An event is a character, one of the keys that have a name, another sequence of the terminal or
the event that asks for a refresh. The key manager has a map of bindings for each mode, with
and without the prefix key; what a call writes into the maps is a log of puts and drops under
the mode, the prefix and the key.
-/

namespace Nazg.Tui

open Lib

inductive Key where
  | arrowLeft
  | arrowRight
  | arrowUp
  | arrowDown
  | backspace
  | delete
  | home
  | endKey
  | pageUp
  | pageDown
  | tab
  | tabReverse
  | returnKey
  | escape
  /-- `F1` to `F12`. -/
  | function (n : Fin 12)
  deriving DecidableEq

/-- What FTXUI hands over. The input of a named key neither is empty nor starts with a NUL or
with the byte of Ctrl-B. -/
inductive Event where
  | character (s : Bytes)
  | key (k : Key)
  | sequence (input : Bytes)
  | custom
  deriving DecidableEq

def Key.name : Key → Bytes
  | .arrowLeft => bytes "ArrowLeft"
  | .arrowRight => bytes "ArrowRight"
  | .arrowUp => bytes "ArrowUp"
  | .arrowDown => bytes "ArrowDown"
  | .backspace => bytes "Backspace"
  | .delete => bytes "Delete"
  | .home => bytes "Home"
  | .endKey => bytes "End"
  | .pageUp => bytes "PageUp"
  | .pageDown => bytes "PageDown"
  | .tab => bytes "Tab"
  | .tabReverse => bytes "Shift-Tab"
  | .returnKey => bytes "Return"
  | .escape => bytes "Escape"
  | .function n => bytes "F" ++ natDecimal (n + 1)

/-- `event_to_key_string`. -/
def eventToKeyString : Event → Bytes
  | .key k => k.name
  | .character [] => []
  | .character (code :: ch) =>
      if code < 32 then bytes "Ctrl-" ++ [64 + code] else code :: ch
  | _ => []

structure KeyBinding where
  key : Bytes
  command : Bytes
  mode : Mode := .prefixMode
  isPrefix : Bool := true
  deriving DecidableEq

/-- A map for each pair of a mode and a prefix; one without entries for those not there. -/
structure KeyManager where
  bindings : Mode → Bool → OrdMap Bytes KeyBinding

namespace KeyManager

def empty : KeyManager := ⟨fun _ _ => .empty⟩

/-- A change of one of the maps. -/
def modify (mode : Mode) (isPrefix : Bool)
    (f : OrdMap Bytes KeyBinding → OrdMap Bytes KeyBinding) (m : KeyManager) : KeyManager :=
  ⟨fun mode' isPrefix' =>
    if mode' = mode ∧ isPrefix' = isPrefix then f (m.bindings mode' isPrefix')
    else m.bindings mode' isPrefix'⟩

def bind (binding : KeyBinding) (m : KeyManager) : KeyManager :=
  m.modify binding.mode binding.isPrefix fun map => map.insert binding.key binding

def unbind (key : Bytes) (mode : Mode) (isPrefix : Bool) (m : KeyManager) : Bool × KeyManager :=
  (((m.bindings mode isPrefix).find? key).isSome,
    m.modify mode isPrefix fun map => map.erase key)

def lookupByKey (key : Bytes) (mode : Mode) (isPrefix : Bool) (m : KeyManager) : Option Bytes :=
  ((m.bindings mode isPrefix).find? key).map KeyBinding.command

/-- The small letter that is tried when a capital one is not bound. -/
def lowerKey : Event → Option Bytes
  | .character (c :: _) => if lowerByte c ≠ c then some [lowerByte c] else none
  | _ => none

def lookup (event : Event) (mode : Mode) (isPrefix : Bool) (m : KeyManager) : Option Bytes :=
  let key := eventToKeyString event
  let found := if key = [] then none else m.lookupByKey key mode isPrefix
  found.or ((lowerKey event).bind fun alt => m.lookupByKey alt mode isPrefix)

def getBindings (mode : Mode) (isPrefix : Bool) (m : KeyManager) : List KeyBinding :=
  (m.bindings mode isPrefix).entries.map Prod.snd

/-- What `load_defaults` binds. -/
def defaults : List KeyBinding :=
  [{ key := bytes "c", command := bytes "new-window" },
    { key := bytes "|", command := bytes "split-vertical" },
    { key := bytes "_", command := bytes "split-horizontal" },
    { key := bytes "x", command := bytes "kill-pane" },
    { key := bytes "d", command := bytes "kill-pane" },
    { key := bytes "X", command := bytes "kill-window" },
    { key := bytes "&", command := bytes "kill-window" },
    { key := bytes "h", command := bytes "navigate-left" },
    { key := bytes "j", command := bytes "navigate-down" },
    { key := bytes "k", command := bytes "navigate-up" },
    { key := bytes "l", command := bytes "navigate-right" },
    { key := bytes "n", command := bytes "next-window" },
    { key := bytes "p", command := bytes "previous-window" },
    { key := bytes "o", command := bytes "last-window" },
    { key := bytes "+", command := bytes "toggle-zoom" },
    { key := bytes "z", command := bytes "toggle-zoom" },
    { key := bytes "q", command := bytes "quit" },
    { key := bytes "?", command := bytes "help" },
    { key := bytes "Ctrl-S", command := bytes "save-layout" },
    { key := bytes "Ctrl-R", command := bytes "restore-layout" },
    { key := bytes ":", command := bytes "command-mode" },
    { key := bytes "[", command := bytes "copy-mode" },
    { key := bytes "r", command := bytes "rename-window" },
    { key := bytes "ArrowLeft", command := bytes "navigate-left" },
    { key := bytes "ArrowRight", command := bytes "navigate-right" },
    { key := bytes "ArrowUp", command := bytes "navigate-up" },
    { key := bytes "ArrowDown", command := bytes "navigate-down" },
    ⟨bytes "i", bytes "enter-insert-mode", .normal, false⟩,
    ⟨bytes "v", bytes "enter-visual-mode", .normal, false⟩,
    ⟨bytes ":", bytes "enter-command-mode", .normal, false⟩,
    ⟨bytes "Escape", bytes "enter-normal-mode", .normal, false⟩,
    ⟨bytes "F7", bytes "quit", .normal, false⟩,
    ⟨bytes "Ctrl-D", bytes "quit", .normal, false⟩]

def bindAll (bindings : List KeyBinding) (m : KeyManager) : KeyManager :=
  bindings.foldl (fun m binding => m.bind binding) m

/-- One `unbind` for each of some bindings. -/
def unbindAll (bindings : List KeyBinding) (m : KeyManager) : KeyManager :=
  bindings.foldl (fun m binding => (m.unbind binding.key binding.mode binding.isPrefix).2) m

def loadDefaults (m : KeyManager) : KeyManager := m.bindAll defaults

/-- The constructor. -/
def create : KeyManager := empty.loadDefaults

inductive Call where
  | bind (binding : KeyBinding)
  | unbind (key : Bytes) (mode : Mode) (isPrefix : Bool)
  | loadDefaults
  | clear

def step (m : KeyManager) : Call → KeyManager
  | .bind binding => m.bind binding
  | .unbind key mode isPrefix => (m.unbind key mode isPrefix).2
  | .loadDefaults => m.loadDefaults
  | .clear => empty

/-! ## The maps as a log -/

/-- The binding at a place. -/
def at? (m : KeyManager) (place : Mode × Bool × Bytes) : Option KeyBinding :=
  (m.bindings place.1 place.2.1).find? place.2.2

end KeyManager

def KeyBinding.place (binding : KeyBinding) : Mode × Bool × Bytes :=
  (binding.mode, binding.isPrefix, binding.key)

namespace KeyManager

theorem lookupByKey_eq (key : Bytes) (mode : Mode) (isPrefix : Bool) (m : KeyManager) :
    m.lookupByKey key mode isPrefix = (m.at? (mode, isPrefix, key)).map KeyBinding.command :=
  rfl

@[simp] theorem at?_empty (place : Mode × Bool × Bytes) : empty.at? place = none := rfl

theorem at?_bind (binding : KeyBinding) (m : KeyManager) (place : Mode × Bool × Bytes) :
    (m.bind binding).at? place = if binding.place = place then some binding else m.at? place := by
  obtain ⟨mode, isPrefix, key⟩ := place
  simp only [at?, bind, modify, KeyBinding.place, Prod.mk.injEq]
  by_cases hmap : mode = binding.mode ∧ isPrefix = binding.isPrefix
  · obtain ⟨rfl, rfl⟩ := hmap
    simp [eq_comm]
  · rw [if_neg hmap, if_neg]
    exact fun h => hmap ⟨h.1.symm, h.2.1.symm⟩

theorem at?_unbind (key : Bytes) (mode : Mode) (isPrefix : Bool) (m : KeyManager)
    (place : Mode × Bool × Bytes) :
    (m.unbind key mode isPrefix).2.at? place =
      if (mode, isPrefix, key) = place then none else m.at? place := by
  obtain ⟨mode', isPrefix', key'⟩ := place
  simp only [at?, unbind, modify, Prod.mk.injEq]
  by_cases hmap : mode' = mode ∧ isPrefix' = isPrefix
  · obtain ⟨rfl, rfl⟩ := hmap
    simp [eq_comm]
  · rw [if_neg hmap, if_neg]
    exact fun h => hmap ⟨h.1.symm, h.2.1.symm⟩

theorem at?_bindAll (bindings : List KeyBinding) (m : KeyManager) (place : Mode × Bool × Bytes) :
    (m.bindAll bindings).at? place =
      Write.after (bindings.map fun b => .put b.place b) (m.at? place) place := by
  induction bindings generalizing m with
  | nil => rfl
  | cons binding bindings ih =>
      rw [List.map_cons, Write.after_cons, Write.on, ← at?_bind]
      exact ih (m.bind binding)

theorem at?_unbindAll (bindings : List KeyBinding) (m : KeyManager)
    (place : Mode × Bool × Bytes) :
    (m.unbindAll bindings).at? place =
      if ∃ b ∈ bindings, b.place = place then none else m.at? place := by
  induction bindings generalizing m with
  | nil => simp [unbindAll]
  | cons binding bindings ih =>
      have hcons : m.unbindAll (binding :: bindings) =
          (m.unbind binding.key binding.mode binding.isPrefix).2.unbindAll bindings := rfl
      rw [hcons, ih, at?_unbind]
      by_cases hhead : binding.place = place
      · have hplace : (binding.mode, binding.isPrefix, binding.key) = place := hhead
        simp [hhead, hplace]
      · have hplace : ¬ (binding.mode, binding.isPrefix, binding.key) = place := hhead
        simp [hhead, hplace]

end KeyManager

end Nazg.Tui

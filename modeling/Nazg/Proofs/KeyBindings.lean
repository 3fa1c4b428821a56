import Nazg.Tui.KeyManager

/-!
# What a key is bound to

The maps of the key manager are what stands after all the bindings and removals: a key has the
command that was bound last, if that was not taken away since, and the bindings that are listed
are those that work.
-/

namespace Nazg.Tui.KeyManager

open Lib

/-- What a call writes. -/
def writes : Call → List (Write (Mode × Bool × Bytes) KeyBinding)
  | .bind b => [.put b.place b]
  | .unbind key mode isPrefix => [.drop fun place _ => (mode, isPrefix, key) = place]
  | .loadDefaults => defaults.map fun b => .put b.place b
  | .clear => [.drop fun _ _ => true]

/-- What the constructor and the calls wrote. -/
def history (calls : List Call) : List (Write (Mode × Bool × Bytes) KeyBinding) :=
  (Call.loadDefaults :: calls).flatMap writes

/-- The binding was made, and neither taken away nor replaced since. -/
def Stands (calls : List Call) (b : KeyBinding) : Prop := Write.Stands (history calls) b.place b

/-- The key has the command, in the mode and with or without the prefix. -/
def Bound (calls : List Call) (key : Bytes) (mode : Mode) (isPrefix : Bool) (command : Bytes) :
    Prop :=
  ∃ b, b.place = (mode, isPrefix, key) ∧ b.command = command ∧ Stands calls b

theorem at?_step (m : KeyManager) (c : Call) (place : Mode × Bool × Bytes) :
    (m.step c).at? place = Write.after (writes c) (m.at? place) place := by
  cases c with
  | bind b => exact at?_bind b m place
  | unbind key mode isPrefix =>
      rw [step, at?_unbind, writes, Write.after_cons, Write.after_nil, Write.on]
      by_cases hplace : (mode, isPrefix, key) = place
      · simp [hplace]
      · cases m.at? place with
        | none => simp [hplace]
        | some b => simp [hplace, Option.filter]
  | loadDefaults => exact at?_bindAll defaults m place
  | clear =>
      rw [step, at?_empty, writes, Write.after_cons, Write.after_nil, Write.on]
      simp

theorem run_create (calls : List Call) :
    Runs.run step create calls = Runs.run step empty (.loadDefaults :: calls) := rfl

/-- Every write puts a binding at its own place. -/
theorem place_of_put {calls : List Call} {place : Mode × Bool × Bytes} {b : KeyBinding}
    (h : .put place b ∈ calls.flatMap writes) : b.place = place := by
  obtain ⟨c, -, hc⟩ := List.mem_flatMap.1 h
  cases c with
  | bind b' =>
      simp only [writes, List.mem_singleton, Write.put.injEq] at hc
      rw [hc.1, hc.2]
  | unbind key mode isPrefix => simp [writes] at hc
  | loadDefaults =>
      simp only [writes, List.mem_map, Write.put.injEq] at hc
      obtain ⟨b', -, rfl, rfl⟩ := hc
      rfl
  | clear => simp [writes] at hc

theorem at?_run_eq_some_iff (calls : List Call) (place : Mode × Bool × Bytes) (b : KeyBinding) :
    (Runs.run step create calls).at? place = some b ↔ b.place = place ∧ Stands calls b := by
  rw [run_create, Write.find_run at?_step, at?_empty, Write.after_eq_some_iff]
  constructor
  · intro h
    have hplace : b.place = place := by
      obtain ⟨before, later, heq, -⟩ := h
      have hmem : .put place b ∈ (Call.loadDefaults :: calls).flatMap writes := by
        rw [heq]
        simp
      exact place_of_put hmem
    subst hplace
    exact ⟨rfl, h⟩
  · rintro ⟨rfl, h⟩
    exact h

theorem lookupByKey_run_eq_some_iff (calls : List Call) (key : Bytes) (mode : Mode)
    (isPrefix : Bool) (command : Bytes) :
    (Runs.run step create calls).lookupByKey key mode isPrefix = some command ↔
      Bound calls key mode isPrefix command := by
  rw [lookupByKey_eq, Option.map_eq_some_iff]
  constructor
  · rintro ⟨b, hb, rfl⟩
    obtain ⟨hplace, hstands⟩ := (at?_run_eq_some_iff calls _ b).1 hb
    exact ⟨b, hplace, rfl, hstands⟩
  · rintro ⟨b, hplace, rfl, hstands⟩
    exact ⟨b, (at?_run_eq_some_iff calls _ b).2 ⟨hplace, hstands⟩, rfl⟩

theorem lookup_eq_some_iff (m : KeyManager) (event : Event) (mode : Mode) (isPrefix : Bool)
    (command : Bytes) :
    m.lookup event mode isPrefix = some command ↔
      (eventToKeyString event ≠ [] ∧
          m.lookupByKey (eventToKeyString event) mode isPrefix = some command) ∨
        ((eventToKeyString event = [] ∨
            m.lookupByKey (eventToKeyString event) mode isPrefix = none) ∧
          ∃ alt, lowerKey event = some alt ∧ m.lookupByKey alt mode isPrefix = some command) := by
  rw [lookup]
  by_cases hkey : eventToKeyString event = []
  · simp [hkey, Option.bind_eq_some_iff]
  · cases m.lookupByKey (eventToKeyString event) mode isPrefix with
    | none => simp [hkey, Option.bind_eq_some_iff]
    | some found => simp [hkey]

theorem mem_getBindings {m : KeyManager} {mode : Mode} {isPrefix : Bool} {b : KeyBinding} :
    b ∈ m.getBindings mode isPrefix ↔ ∃ key, m.at? (mode, isPrefix, key) = some b := by
  simp only [getBindings, List.mem_map, Prod.exists, OrdMap.mem_entries, exists_eq_right]
  rfl

/-- After any calls a key finds the command that was bound to it last, if that stands, and
otherwise that of its small letter; the bindings that are listed are those that stand, and
`unbind` tells whether there was one. -/
theorem lookup_run (calls : List Call) (mode : Mode) (isPrefix : Bool) :
    let m := Runs.run step create calls
    (∀ event command, m.lookup event mode isPrefix = some command ↔
      (eventToKeyString event ≠ [] ∧
          Bound calls (eventToKeyString event) mode isPrefix command) ∨
        ((eventToKeyString event = [] ∨
            ∀ other, ¬ Bound calls (eventToKeyString event) mode isPrefix other) ∧
          ∃ alt, lowerKey event = some alt ∧ Bound calls alt mode isPrefix command)) ∧
      (∀ b, b ∈ m.getBindings mode isPrefix ↔
        b.mode = mode ∧ b.isPrefix = isPrefix ∧ Stands calls b) ∧
      ∀ key, (m.unbind key mode isPrefix).1 = true ↔
        ∃ command, Bound calls key mode isPrefix command := by
  intro m
  refine ⟨fun event command => ?_, fun b => ?_, fun key => ?_⟩
  · simp only [lookup_eq_some_iff, Option.eq_none_iff_forall_ne_some, ne_eq, m,
      lookupByKey_run_eq_some_iff]
  · simp only [mem_getBindings, m, at?_run_eq_some_iff, KeyBinding.place, Prod.mk.injEq]
    constructor
    · intro h
      obtain ⟨_, ⟨hmode, hflag, _⟩, hstands⟩ := h
      exact ⟨hmode, hflag, hstands⟩
    · intro h
      obtain ⟨hmode, hflag, hstands⟩ := h
      exact ⟨b.key, ⟨hmode, hflag, rfl⟩, hstands⟩
  · have hsome : (m.unbind key mode isPrefix).1 = (m.at? (mode, isPrefix, key)).isSome := rfl
    rw [hsome, Option.isSome_iff_exists]
    simp only [m, at?_run_eq_some_iff, Bound]
    constructor
    · intro h
      obtain ⟨b, hplace, hstands⟩ := h
      exact ⟨b.command, b, hplace, rfl, hstands⟩
    · intro h
      obtain ⟨_, b, hplace, _, hstands⟩ := h
      exact ⟨b, hplace, hstands⟩

end Nazg.Tui.KeyManager

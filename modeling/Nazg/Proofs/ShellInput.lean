import Mathlib.Data.List.Destutter
import Nazg.Proofs.AppModes

/-!
# What is typed reaches the shell

In INSERT mode the keys go to the active pane in their order, each as its bytes, and nothing
else of the application changes. An Escape is held back until the next key, since it may be half
of Alt-B, and of several in a row the shell gets one.
-/

namespace Nazg.Tui.TuiApp

open Lib

/-- What an event is for a shell. -/
def encode : Event → Bytes
  | .character s => s
  | .key .escape => [27]
  | .key k => (keyBytes k).getD []
  | _ => []

/-- The event is not one that the application keeps for itself in INSERT mode. -/
def Plain : Event → Prop
  | .character s => s.head? ≠ some 2 ∧ s ≠ [4] ∧ s ≠ bytes ":"
  | .key k => k ≠ quitKey
  | .sequence s => s.head? ≠ some 2
  | .custom => True

instance : DecidablePred Plain
  | .character s => inferInstanceAs (Decidable (s.head? ≠ some 2 ∧ s ≠ [4] ∧ s ≠ bytes ":"))
  | .key k => inferInstanceAs (Decidable (k ≠ quitKey))
  | .sequence s => inferInstanceAs (Decidable (s.head? ≠ some 2))
  | .custom => inferInstanceAs (Decidable True)

def escape : Event := .key .escape

/-- The two events are not Alt-B. -/
def NotAltB (e e' : Event) : Prop := ¬ (e = escape ∧ e' = .character (bytes "b"))

/-- The two events are not both an Escape. -/
def NotTwice (e e' : Event) : Prop := ¬ (e = escape ∧ e' = escape)

instance : DecidableRel NotTwice := fun e e' =>
  inferInstanceAs (Decidable (¬ (e = escape ∧ e' = escape)))

/-- The events but for those that ask for a refresh. -/
def keysOf (inputs : List Input) : List Event := (inputs.map Prod.snd).filter (· ≠ .custom)

/-- The keys as bytes, with one Escape for several in a row. -/
def typed (keys : List Event) : Bytes := (keys.destutter NotTwice).flatMap encode

/-- The mode is INSERT, and the window that is active owns its active pane. -/
structure Typing (a : TuiApp) (serial pane : Nat) : Prop where
  mode : a.modes.currentMode = .insert
  inactive : a.modes.prefixActive = false
  bar : a.bar.active = false
  window : ∃ window, a.windows.activeWindow = some window ∧ window.serial = serial
  activePane : (a.contents serial).activePane = some pane
  owned : pane ∈ (a.contents serial).panes

/-- The application after more was written to the pane. -/
def wrote (serial pane : Nat) (chunks : List Bytes) (sawEscape : Bool) (a : TuiApp) : TuiApp :=
  { a with
    sent := a.sent ++ chunks.map fun chunk => (serial, pane, chunk)
    sawEscape := sawEscape }

variable {a : TuiApp} {serial pane : Nat}

theorem Typing.wrote (h : a.Typing serial pane) (chunks : List Bytes) (sawEscape : Bool) :
    (a.wrote serial pane chunks sawEscape).Typing serial pane :=
  ⟨h.mode, h.inactive, h.bar, h.window, h.activePane, h.owned⟩

theorem Typing.sendInput (h : a.Typing serial pane) (data : Bytes) :
    a.sendInput data = a.wrote serial pane [data] a.sawEscape := by
  obtain ⟨window, hwindow, rfl⟩ := h.window
  simp only [TuiApp.sendInput, hwindow, h.activePane, if_pos h.owned]
  rfl

theorem Typing.checkPrefixTimeout (h : a.Typing serial pane) (s : Surroundings) :
    a.checkPrefixTimeout s = a := by
  simp [TuiApp.checkPrefixTimeout, ModeManager.checkPrefixTimeout, h.inactive]

/-- What is held back. -/
def held (a : TuiApp) : List Event := if a.sawEscape then [escape] else []

theorem Typing.releaseEscape (h : a.Typing serial pane) :
    a.releaseEscape = a.wrote serial pane (a.held.map encode) false := by
  rw [TuiApp.releaseEscape, held]
  cases hsaw : a.sawEscape with
  | false => simp [TuiApp.wrote]
  | true =>
      have hsend := (h.wrote [] false).sendInput [27]
      simp only [TuiApp.wrote, List.map_nil, List.append_nil] at hsend
      simp [h.mode, hsend, TuiApp.wrote, escape, encode]

/-- The writes for a key. -/
def chunksOf : Event → List Bytes
  | .character s => [s]
  | .key k => (keyBytes k).toList
  | _ => []

theorem flatten_chunksOf {e : Event} (h : e ≠ escape) : (chunksOf e).flatten = encode e := by
  cases e with
  | character s => simp [chunksOf, encode]
  | key k =>
      cases k with
      | escape => exact absurd rfl h
      | _ => simp [chunksOf, encode, keyBytes]
  | sequence s => rfl
  | custom => rfl

theorem Typing.handleInsertInput (h : a.Typing serial pane) {e : Event} (hplain : Plain e) :
    (a.handleInsertInput e).2 = a.wrote serial pane (chunksOf e) a.sawEscape := by
  obtain ⟨window, hwindow, -⟩ := h.window
  have hsome : a.windows.activeWindow ≠ none := by simp [hwindow]
  have hnothing : a = a.wrote serial pane [] a.sawEscape := by simp [TuiApp.wrote]
  rw [TuiApp.handleInsertInput.eq_def, if_neg hsome]
  cases e with
  | character s =>
      simp only [hplain.2.1, if_false]
      exact h.sendInput s
  | key k =>
      have hquit : k ≠ quitKey := hplain
      simp only [chunksOf]
      cases keyBytes k with
      | none =>
          simp only [hquit, if_false]
          exact hnothing
      | some data => exact h.sendInput data
  | sequence s => exact hnothing
  | custom => exact hnothing

theorem Plain.not_isPrefixKey {e : Event} (h : Plain e) : ¬ isPrefixKey e = true := by
  cases e with
  | character s => simpa [isPrefixKey] using h.1
  | key k => exact Bool.noConfusion
  | sequence s =>
      have hhead : s.head? ≠ some 2 := h
      simpa [isPrefixKey] using hhead
  | custom => exact Bool.noConfusion

/-- A key but an Escape. -/
theorem Typing.step (h : a.Typing serial pane) (s : Surroundings) {e : Event} (hplain : Plain e)
    (hcustom : e ≠ .custom) (hescape : e ≠ escape)
    (halt : ¬ (a.sawEscape = true ∧ e = .character (bytes "b"))) :
    a.step (s, e) = a.wrote serial pane (a.held.map encode ++ chunksOf e) false := by
  have hcolon : e ≠ .character (bytes ":") := by
    rintro rfl
    exact hplain.2.2 rfl
  have hreleased := h.wrote (a.held.map encode) false
  have hescape' : e ≠ .key .escape := hescape
  have hmode : (a.wrote serial pane (a.held.map encode) false).handleByMode s e =
      (a.wrote serial pane (a.held.map encode) false).handleInsertInput e := by
    rw [handleByMode, hreleased.mode]
  have hkey : isPrefixKey e = false := Bool.eq_false_of_not_eq_true hplain.not_isPrefixKey
  simp only [TuiApp.step, handleInput, h.checkPrefixTimeout, hcustom, h.bar, hkey, hescape', halt,
    hcolon, Bool.false_eq_true, if_false, h.releaseEscape]
  rw [hmode, hreleased.handleInsertInput hplain]
  simp [TuiApp.wrote]

theorem Typing.step_escape (h : a.Typing serial pane) (s : Surroundings) :
    a.step (s, escape) = a.wrote serial pane [] true := by
  have hbar : ¬ a.bar.active = true := by simp [h.bar]
  simp [TuiApp.step, handleInput, h.checkPrefixTimeout, hbar, escape, isPrefixKey, TuiApp.wrote]

theorem Typing.step_custom (h : a.Typing serial pane) (s : Surroundings) :
    a.step (s, .custom) = a := by
  simp [TuiApp.step, handleInput, h.checkPrefixTimeout]

/-! ## Keys in a row -/

theorem destutter_escape_twice (keys : List Event) :
    (escape :: escape :: keys).destutter NotTwice = (escape :: keys).destutter NotTwice := by
  have htwice : ¬ NotTwice escape escape := fun h => h ⟨rfl, rfl⟩
  rw [List.destutter_cons_cons, if_neg htwice, List.destutter_cons']

theorem destutter_cons_of_ne {e : Event} (h : e ≠ escape) (keys : List Event) :
    (e :: keys).destutter NotTwice = e :: keys.destutter NotTwice := by
  cases keys with
  | nil => rfl
  | cons e' keys =>
      have honce : NotTwice e e' := fun htwice => h htwice.1
      rw [List.destutter_cons_cons, if_pos honce, List.destutter_cons']

theorem destutter_held {e : Event} (h : e ≠ escape) (keys : List Event) :
    (a.held ++ e :: keys).destutter NotTwice = a.held ++ e :: keys.destutter NotTwice := by
  rw [held]
  cases a.sawEscape with
  | false => exact destutter_cons_of_ne h keys
  | true =>
      have honce : NotTwice escape e := fun htwice => h htwice.2
      have hcons : ([escape] ++ e :: keys).destutter NotTwice =
          escape :: (e :: keys).destutter NotTwice := by
        rw [List.singleton_append, List.destutter_cons_cons, if_pos honce, List.destutter_cons']
      simp only [if_true]
      rw [hcons, destutter_cons_of_ne h]
      rfl

/-- An Escape after the last key. -/
def endsHeld (keys : List Event) : Bool := keys.getLast? = some escape

/-- What was written by a run: the bytes of the keys, but for an Escape that is held back. -/
structure Wrote (serial pane : Nat) (keys : List Event) (a a' : TuiApp) (chunks : List Bytes) :
    Prop where
  state : a' = a.wrote serial pane chunks (endsHeld keys)
  bytes : chunks.flatten ++ (if endsHeld keys then [27] else []) = typed keys

theorem endsHeld_held (a : TuiApp) : endsHeld a.held = a.sawEscape := by
  rw [held]
  cases a.sawEscape <;> simp [endsHeld]

theorem wrote_nil (a : TuiApp) : Wrote serial pane a.held a a [] := by
  refine ⟨?_, ?_⟩
  · rw [endsHeld_held]
    simp [TuiApp.wrote]
  · rw [endsHeld_held, held]
    cases a.sawEscape <;> simp [typed, escape, encode]

/-- An Escape after what was held back is what is held back now. -/
theorem wrote_escape {keys : List Event} {a' : TuiApp} {chunks : List Bytes}
    (h : Wrote serial pane (escape :: keys) (a.wrote serial pane [] true) a' chunks) :
    Wrote serial pane (a.held ++ escape :: keys) a a' chunks := by
  have hstate : a' = a.wrote serial pane chunks (endsHeld (escape :: keys)) := by
    rw [h.state]
    simp [TuiApp.wrote]
  cases hsaw : a.sawEscape with
  | false =>
      have hheld : a.held = [] := by simp [held, hsaw]
      rw [hheld]
      exact ⟨hstate, h.bytes⟩
  | true =>
      have hheld : a.held = [escape] := by simp [held, hsaw]
      have hends : endsHeld (escape :: escape :: keys) = endsHeld (escape :: keys) := rfl
      have htyped : typed (escape :: escape :: keys) = typed (escape :: keys) := by
        rw [typed, destutter_escape_twice, ← typed]
      rw [hheld, List.singleton_append]
      refine ⟨?_, ?_⟩
      · rw [hends]
        exact hstate
      · rw [hends, htyped]
        exact h.bytes

/-- A key but an Escape goes out after what was held back. -/
theorem Wrote.cons {e : Event} (h : e ≠ escape) {keys : List Event} {a' : TuiApp}
    {chunks : List Bytes}
    (hrest : Wrote serial pane keys
      (a.wrote serial pane (a.held.map encode ++ chunksOf e) false) a' chunks) :
    Wrote serial pane (a.held ++ e :: keys) a a'
      (a.held.map encode ++ chunksOf e ++ chunks) := by
  have hends : endsHeld (a.held ++ e :: keys) = endsHeld keys := by
    rw [endsHeld, endsHeld, List.getLast?_append_cons]
    cases keys with
    | nil => simp [h]
    | cons e' keys => rfl
  refine ⟨?_, ?_⟩
  · rw [hrest.state, hends]
    simp [TuiApp.wrote]
  · rw [hends, typed, destutter_held h, List.flatMap_append, List.flatMap_cons, ← typed,
      ← hrest.bytes, ← flatten_chunksOf h]
    simp [List.flatMap]

theorem Typing.run (h : a.Typing serial pane) (inputs : List Input)
    (hplain : ∀ i ∈ inputs, Plain i.2) (halt : (a.held ++ keysOf inputs).IsChain NotAltB) :
    ∃ chunks, Wrote serial pane (a.held ++ keysOf inputs) a (Runs.run TuiApp.step a inputs)
      chunks := by
  induction inputs generalizing a with
  | nil =>
      rw [keysOf, List.map_nil, List.filter_nil, List.append_nil]
      exact ⟨[], wrote_nil a⟩
  | cons i inputs ih =>
      obtain ⟨s, e⟩ := i
      obtain ⟨hfirst, hrest⟩ := List.forall_mem_cons.1 hplain
      rw [Runs.run_cons]
      by_cases hcustom : e = .custom
      · have hkeys : keysOf ((s, e) :: inputs) = keysOf inputs := by simp [keysOf, hcustom]
        rw [hkeys] at halt ⊢
        rw [hcustom, h.step_custom]
        exact ih h hrest halt
      · have hkeys : keysOf ((s, e) :: inputs) = e :: keysOf inputs := by simp [keysOf, hcustom]
        rw [hkeys] at halt ⊢
        by_cases hescape : e = escape
        · rw [hescape] at halt ⊢
          rw [h.step_escape]
          obtain ⟨chunks, hchunks⟩ := ih (h.wrote [] true) hrest halt.right_of_append
          exact ⟨chunks, wrote_escape hchunks⟩
        · have halt' : ¬ (a.sawEscape = true ∧ e = .character (bytes "b")) := by
            rintro ⟨hsaw, rfl⟩
            simp [held, hsaw, NotAltB] at halt
          rw [h.step s hfirst hcustom hescape halt']
          obtain ⟨chunks, hchunks⟩ :=
            ih (h.wrote (a.held.map encode ++ chunksOf e) false) hrest halt.right_of_append.tail
          exact ⟨_, hchunks.cons hescape⟩

/-- A moment in which nothing fails, and docker has nothing. -/
def calm : Surroundings where
  now := 0
  spawns := true
  docker :=
    { servers := ([], none)
      containers := fun _ => ([], none)
      helloWorld := fun _ => ⟨true, 0, [], []⟩ }

def typeText (text : String) : List Input := (bytes text).map fun c => (calm, .character [c])

/-- The command that opens a window. -/
def openWindow : List Input := typeText ":new-window" ++ [(calm, .key .returnKey)]

/-- Two letters and two Escapes. -/
def letters : List Input := typeText "ls" ++ [(calm, escape), (calm, escape)]

end Nazg.Tui.TuiApp

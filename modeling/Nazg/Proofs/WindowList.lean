import Mathlib.Data.List.InsertIdx
import Mathlib.Data.List.Nodup
import Nazg.Lib.Runs
import Nazg.Tui.TuiContext

/-!
# The windows keep their meaning

An erasure moves every later window down by one, and `close_window` only keeps the two
indices within the vector. So the index of a later window still names it exactly if the
window was the last one of the vector. The same loop gives every window the name of its
place, so a name that was set survives exactly if it is that name.
-/

namespace Nazg.Tui.TuiContext

open Lib

/-- The name that `rename-window` gave to a window. -/
def renamedTo (m : TuiContext) (serial : Nat) : Option Bytes := m.renames.lookup serial

/-- The window that `focus_last_window` goes to. -/
def lastWindow (m : TuiContext) : Option Window := m.windowAt (m.clamped m.lastWindowIndex)

/-- What is promised of the names. -/
structure NamesRight (m : TuiContext) : Prop where
  kept : ∀ window ∈ m.windows, ∀ name, m.renamedTo window.serial = some name → window.name = name
  distinct : ∀ window ∈ m.windows, ∀ window' ∈ m.windows, window ≠ window' →
    m.renamedTo window.serial = none → m.renamedTo window'.serial = none →
    window.name ≠ window'.name

/-- The window that a call is to close. -/
def closes (m : TuiContext) : Call → Option Nat
  | .closeWindow serial => some serial
  | .closeActiveWindow => m.activeWindow.map Window.serial
  | _ => none

/-- A call that closes another window leaves the active and the last one. -/
structure FocusKept (m : TuiContext) (c : Call) : Prop where
  active : ∀ serial ∈ m.closes c, m.activeWindow.map Window.serial ≠ some serial →
    (m.step c).activeWindow.map Window.serial = m.activeWindow.map Window.serial
  last : ∀ serial ∈ m.closes c, m.lastWindow.map Window.serial ≠ some serial →
    (m.step c).lastWindow.map Window.serial = m.lastWindow.map Window.serial

def place (m : TuiContext) (serial : Nat) : Option Nat :=
  m.windows.findIdx? fun window => window.serial = serial

/-- The index stays right when the window at the place is erased. -/
def Steady (m : TuiContext) (place : Nat) (index : Int) : Prop :=
  place < index → index = m.windows.length - 1

/-- Every window that is left and was renamed has the name of its new place. -/
def Renumbered (m : TuiContext) (place : Nat) : Prop :=
  ∀ (i : Nat) (window : Window), (m.windows.eraseIdx place)[i]? = some window →
    ∀ name, m.renamedTo window.serial = some name → name = windowName i

/-- The call closes no window that lies before the active or the last one, unless this is at
the end of the vector, and no window while another one has a name of its own. -/
def Careful (m : TuiContext) (c : Call) : Prop :=
  1 < m.windows.length → ∀ serial ∈ m.closes c, ∀ place ∈ m.place serial,
    m.Steady place m.activeWindowIndex ∧ m.Steady place m.lastWindowIndex ∧ m.Renumbered place

/-! ## The invariant -/

def InRange (size : Nat) (index : Int) : Prop := 0 ≤ index ∧ index < max size 1

/-- Windows are different, the indices lie in the vector, and a window that was never renamed
has the name of its place. -/
structure Tidy (m : TuiContext) : Prop where
  nodup : (m.windows.map Window.serial).Nodup
  created : ∀ window ∈ m.windows, window.serial < m.created
  renamed : ∀ serial, m.created ≤ serial → m.renamedTo serial = none
  active : InRange m.windows.length m.activeWindowIndex
  last : InRange m.windows.length m.lastWindowIndex
  numbered : ∀ (i : Nat) (window : Window), m.windows[i]? = some window →
    m.renamedTo window.serial = none → window.name = windowName i

theorem windowName_injective : Function.Injective windowName := by
  intro i j h
  have hdecimal := decimal_injective (List.append_cancel_left h)
  omega

theorem Tidy.distinct {m : TuiContext} (h : m.Tidy) :
    ∀ window ∈ m.windows, ∀ window' ∈ m.windows, window ≠ window' →
      m.renamedTo window.serial = none → m.renamedTo window'.serial = none →
      window.name ≠ window'.name := by
  intro window hw window' hw' hne hrenamed hrenamed' hname
  obtain ⟨i, hi⟩ := List.mem_iff_getElem?.1 hw
  obtain ⟨j, hj⟩ := List.mem_iff_getElem?.1 hw'
  rw [h.numbered i window hi hrenamed, h.numbered j window' hj hrenamed'] at hname
  have hij := windowName_injective hname
  subst hij
  rw [hi] at hj
  exact hne (Option.some.inj hj)

/-! ## Calls that move the focus -/

/-- Only the two indices change, and they stay in the vector. -/
structure Refocused (m m' : TuiContext) : Prop where
  windows : m'.windows = m.windows
  created : m'.created = m.created
  renames : m'.renames = m.renames
  active : InRange m.windows.length m'.activeWindowIndex
  last : InRange m.windows.length m'.lastWindowIndex

theorem Refocused.refl {m : TuiContext} (h : m.Tidy) : Refocused m m :=
  ⟨rfl, rfl, rfl, h.active, h.last⟩

theorem Refocused.tidy {m m' : TuiContext} (h : Refocused m m') (htidy : m.Tidy) : m'.Tidy := by
  refine ⟨?_, ?_, ?_, ?_, ?_, ?_⟩
  · rw [h.windows]
    exact htidy.nodup
  · rw [h.windows, h.created]
    exact htidy.created
  · simp only [renamedTo, h.renames, h.created]
    exact htidy.renamed
  · rw [h.windows]
    exact h.active
  · rw [h.windows]
    exact h.last
  · simp only [renamedTo, h.windows, h.renames]
    exact htidy.numbered

theorem Refocused.kept {m m' : TuiContext} (h : Refocused m m') (hright : m.NamesRight) :
    ∀ window ∈ m'.windows, ∀ name, m'.renamedTo window.serial = some name →
      window.name = name := by
  simp only [renamedTo, h.windows, h.renames]
  exact hright.kept

theorem refocused_focusWindow {m : TuiContext} (h : m.Tidy) (index : Int) :
    Refocused m (m.focusWindow index).2 := by
  rw [focusWindow]
  split
  · exact .refl h
  · next hindex =>
      split
      · exact .refl h
      · refine ⟨rfl, rfl, rfl, ?_, h.active⟩
        dsimp only [InRange]
        omega

theorem refocused_focusNextWindow {m : TuiContext} (h : m.Tidy) :
    Refocused m m.focusNextWindow.2 := by
  rw [focusNextWindow]
  split
  · exact .refl h
  · next hlength =>
      have hactive := h.active.1
      have hlow := Int.tmod_nonneg (m.windows.length : Int) (by omega : 0 ≤ m.activeWindowIndex + 1)
      have hhigh := Int.tmod_lt_of_pos (m.activeWindowIndex + 1)
        (by omega : (0 : Int) < m.windows.length)
      refine ⟨rfl, rfl, rfl, ?_, h.active⟩
      dsimp only [InRange]
      omega

theorem refocused_focusPreviousWindow {m : TuiContext} (h : m.Tidy) :
    Refocused m m.focusPreviousWindow.2 := by
  rw [focusPreviousWindow]
  split
  · exact .refl h
  · have hactive := h.active
    refine ⟨rfl, rfl, rfl, ?_, h.active⟩
    dsimp only [InRange] at hactive ⊢
    split
    · omega
    · omega

theorem refocused_focusLastWindow {m : TuiContext} (h : m.Tidy) :
    Refocused m m.focusLastWindow.2 := by
  rw [focusLastWindow]
  split
  · exact .refl h
  · refine ⟨rfl, rfl, rfl, ?_, h.active⟩
    have hlast := h.last
    dsimp only [InRange, clamped] at hlast ⊢
    split
    · omega
    · split
      · omega
      · omega

/-- Going to the last window makes it the active one. -/
theorem activeWindow_focusLastWindow {m : TuiContext} (h : m.focusLastWindow.1 = true) :
    m.focusLastWindow.2.activeWindow = m.lastWindow := by
  rw [focusLastWindow] at h ⊢
  split at h
  · exact Bool.noConfusion h
  · next hmoves => rw [if_neg hmoves, activeWindow, lastWindow, windowAt, windowAt]

/-! ## A new window -/

theorem renamedTo_createWindow (m : TuiContext) (serial : Nat) :
    m.createWindow.renamedTo serial = m.renamedTo serial := rfl

theorem tidy_createWindow {m : TuiContext} (h : m.Tidy) : m.createWindow.Tidy := by
  have hactive := h.active
  dsimp only [InRange] at hactive
  refine ⟨?_, ?_, fun serial hserial => ?_, ?_, ?_, fun i window hi hnone => ?_⟩
  · rw [createWindow, List.map_append, List.nodup_append]
    refine ⟨h.nodup, List.nodup_singleton _, ?_⟩
    intro serial hold serial' hnew heq
    obtain ⟨window, hwindow, rfl⟩ := List.mem_map.1 hold
    have hlt := h.created window hwindow
    simp only [List.map_cons, List.map_nil, List.mem_singleton] at hnew
    omega
  · intro window hwindow
    simp only [createWindow, List.mem_append, List.mem_singleton] at hwindow ⊢
    rcases hwindow with hold | rfl
    · have hlt := h.created window hold
      omega
    · exact Nat.lt_succ_self m.created
  · rw [renamedTo_createWindow]
    have hcreated : m.created + 1 ≤ serial := hserial
    exact h.renamed serial (by omega)
  · simp only [createWindow, InRange, List.length_append, List.length_singleton]
    omega
  · simp only [createWindow, InRange, List.length_append, List.length_singleton]
    omega
  · rw [renamedTo_createWindow] at hnone
    simp only [createWindow, List.getElem?_append] at hi
    split at hi
    · exact h.numbered i window hi hnone
    · next hlength =>
        rw [List.getElem?_singleton] at hi
        split at hi
        · cases hi
          exact congrArg windowName (by omega)
        · cases hi

theorem kept_createWindow {m : TuiContext} (h : m.Tidy) (hright : m.NamesRight) :
    ∀ window ∈ m.createWindow.windows, ∀ name,
      m.createWindow.renamedTo window.serial = some name → window.name = name := by
  intro window hwindow name hname
  rw [renamedTo_createWindow] at hname
  simp only [createWindow, List.mem_append, List.mem_singleton] at hwindow
  rcases hwindow with hold | rfl
  · exact hright.kept window hold name hname
  · rw [h.renamed m.created (Nat.le_refl _)] at hname
    cases hname

/-! ## Renaming -/

/-- The ways `rename-window` ends. -/
theorem renameWindow_cases (args : List Bytes) (m : TuiContext) :
    m.renameWindow args = (false, m) ∨
      ∃ window name, m.activeWindow = some window ∧
        (m.renameWindow args).2.windows =
          m.windows.set m.activeWindowIndex.toNat { window with name := name } ∧
        (m.renameWindow args).2.renames = (window.serial, name) :: m.renames ∧
        (m.renameWindow args).2.created = m.created ∧
        (m.renameWindow args).2.activeWindowIndex = m.activeWindowIndex ∧
        (m.renameWindow args).2.lastWindowIndex = m.lastWindowIndex := by
  rw [renameWindow]
  cases hactive : m.activeWindow with
  | none => exact .inl rfl
  | some window =>
      cases args with
      | nil => exact .inl rfl
      | cons name args => exact .inr ⟨window, name, rfl, rfl, rfl, rfl, rfl, rfl⟩

theorem getElem?_of_activeWindow {m : TuiContext} {window : Window}
    (h : m.activeWindow = some window) : m.windows[m.activeWindowIndex.toNat]? = some window := by
  rw [activeWindow, windowAt] at h
  split at h
  · cases h
  · exact h

/-- What the place of a window holds after a renaming. -/
theorem renamed_place {m m' : TuiContext} {window : Window} {name : Bytes} (h : m.Tidy)
    (hactive : m.activeWindow = some window)
    (hwindows : m'.windows = m.windows.set m.activeWindowIndex.toNat { window with name := name })
    (hrenames : m'.renames = (window.serial, name) :: m.renames) {i : Nat} {window' : Window}
    (hi : m'.windows[i]? = some window') :
    window' = { window with name := name } ∧ m'.renamedTo window'.serial = some name ∨
      m.windows[i]? = some window' ∧ m'.renamedTo window'.serial = m.renamedTo window'.serial := by
  have hplace := getElem?_of_activeWindow hactive
  rw [hwindows, List.getElem?_set] at hi
  split at hi
  · next hsame =>
      split at hi
      · cases hi
        exact .inl ⟨rfl, by simp [renamedTo, hrenames]⟩
      · cases hi
  · next hother =>
      refine .inr ⟨hi, ?_⟩
      have hne : window'.serial ≠ window.serial := by
        intro heq
        have hsame : (m.windows.map Window.serial)[m.activeWindowIndex.toNat]? =
            (m.windows.map Window.serial)[i]? := by
          rw [List.getElem?_map, List.getElem?_map, hplace, hi, Option.map_some, Option.map_some,
            heq]
        have hlength : m.activeWindowIndex.toNat < (m.windows.map Window.serial).length := by
          rw [List.length_map]
          exact (List.getElem?_eq_some_iff.1 hplace).1
        exact hother ((List.getElem?_inj hlength h.nodup).1 hsame)
      simp [renamedTo, hrenames, List.lookup_cons, beq_eq_false_iff_ne.2 hne]

theorem tidy_renameWindow {m : TuiContext} (h : m.Tidy) (args : List Bytes) :
    (m.renameWindow args).2.Tidy := by
  rcases renameWindow_cases args m with
    heq | ⟨window, name, hactive, hwindows, hrenames, hcreated, hindex, hindex'⟩
  · rw [heq]
    exact h
  · have hplace := getElem?_of_activeWindow hactive
    have hserials : (m.renameWindow args).2.windows.map Window.serial =
        m.windows.map Window.serial := by
      rw [hwindows, List.map_set]
      refine List.ext_getElem? fun i => ?_
      rw [List.getElem?_set, List.getElem?_map]
      split
      · next hi =>
          subst hi
          have hlength := (List.getElem?_eq_some_iff.1 hplace).1
          rw [List.length_map, if_pos hlength, hplace, Option.map_some]
      · rfl
    have hlength : (m.renameWindow args).2.windows.length = m.windows.length := by
      rw [hwindows, List.length_set]
    have hcases := fun i window' =>
      @renamed_place m _ window name h hactive hwindows hrenames i window'
    refine ⟨?_, fun window' hwindow' => ?_, fun serial hserial => ?_, ?_, ?_,
      fun i window' hi hnone => ?_⟩
    · rw [hserials]
      exact h.nodup
    · have hmem := List.mem_map_of_mem (f := Window.serial) hwindow'
      rw [hserials] at hmem
      obtain ⟨old, hold, heq⟩ := List.mem_map.1 hmem
      rw [hcreated, ← heq]
      exact h.created old hold
    · rw [hcreated] at hserial
      have hlt := h.created window (List.mem_of_getElem? hplace)
      have hne : (serial == window.serial) = false := by
        rw [beq_eq_false_iff_ne]
        omega
      rw [renamedTo, hrenames, List.lookup_cons, hne]
      exact h.renamed serial hserial
    · rw [hlength, hindex]
      exact h.active
    · rw [hlength, hindex']
      exact h.last
    · rcases hcases i window' hi with ⟨-, hsome⟩ | ⟨hold, hsame⟩
      · rw [hsome] at hnone
        cases hnone
      · rw [hsame] at hnone
        exact h.numbered i window' hold hnone

theorem kept_renameWindow {m : TuiContext} (h : m.Tidy) (hright : m.NamesRight)
    (args : List Bytes) : ∀ window ∈ (m.renameWindow args).2.windows, ∀ name,
      (m.renameWindow args).2.renamedTo window.serial = some name → window.name = name := by
  rcases renameWindow_cases args m with
    heq | ⟨window, name, hactive, hwindows, hrenames, -, -, -⟩
  · rw [heq]
    exact hright.kept
  · intro window' hwindow' name' hname'
    obtain ⟨i, hi⟩ := List.mem_iff_getElem?.1 hwindow'
    rcases renamed_place h hactive hwindows hrenames hi with ⟨rfl, hsome⟩ | ⟨hold, hsame⟩
    · rw [hsome] at hname'
      exact Option.some.inj hname'
    · rw [hsame] at hname'
      exact hright.kept window' (List.mem_of_getElem? hold) name' hname'

/-! ## Closing a window -/

/-- What is left when the window at the place is closed. -/
def closedAt (m : TuiContext) (place : Nat) : TuiContext :=
  { m with
    windows := renumber (m.windows.eraseIdx place)
    activeWindowIndex := adjust (m.windows.eraseIdx place).length m.activeWindowIndex
    lastWindowIndex := adjust (m.windows.eraseIdx place).length m.lastWindowIndex }

/-- The ways a closing ends. -/
theorem closeWindow_cases (m : TuiContext) (serial : Nat) :
    m.closeWindow serial = (false, m) ∧ (1 < m.windows.length → m.place serial = none) ∨
      ∃ place, 1 < m.windows.length ∧ m.place serial = some place ∧
        m.closeWindow serial = (true, m.closedAt place) := by
  rw [closeWindow]
  split
  · exact .inl ⟨rfl, fun h => by omega⟩
  · next hlength =>
      cases hplace : m.place serial with
      | none =>
          rw [place] at hplace
          rw [hplace]
          exact .inl ⟨rfl, fun _ => rfl⟩
      | some i =>
          rw [place] at hplace
          rw [hplace]
          exact .inr ⟨i, by omega, rfl, rfl⟩

theorem getElem?_of_place {m : TuiContext} {serial i : Nat} (h : m.place serial = some i) :
    (m.windows.map Window.serial)[i]? = some serial := by
  rw [place, List.findIdx?_eq_some_iff_getElem] at h
  obtain ⟨hlength, hserial, -⟩ := h
  rw [List.getElem?_map, List.getElem?_eq_getElem hlength, Option.map_some,
    of_decide_eq_true hserial]

theorem map_serial_renumber (windows : List Window) :
    (renumber windows).map Window.serial = windows.map Window.serial := by
  refine List.ext_getElem? fun i => ?_
  rw [renumber, List.getElem?_map, List.getElem?_mapIdx, List.getElem?_map, Option.map_map]
  rfl

theorem length_renumber (windows : List Window) : (renumber windows).length = windows.length := by
  rw [renumber, List.length_mapIdx]

theorem getElem?_renumber {windows : List Window} {i : Nat} {window : Window}
    (h : (renumber windows)[i]? = some window) :
    ∃ old, windows[i]? = some old ∧ window = { old with name := windowName i } := by
  rw [renumber, List.getElem?_mapIdx, Option.map_eq_some_iff] at h
  obtain ⟨old, hold, rfl⟩ := h
  exact ⟨old, hold, rfl⟩

theorem inRange_adjust {size : Nat} (hsize : 0 < size) (index : Int) :
    InRange size (adjust size index) := by
  dsimp only [InRange, adjust]
  split
  · split <;> omega
  · split <;> omega

theorem tidy_closedAt {m : TuiContext} (h : m.Tidy) {place : Nat} (hlength : 1 < m.windows.length) :
    (m.closedAt place).Tidy := by
  have hleft : 0 < (m.windows.eraseIdx place).length := by
    have hle := List.le_length_eraseIdx m.windows place
    omega
  refine ⟨?_, fun window hwindow => ?_, h.renamed, ?_, ?_, fun i window hi _ => ?_⟩
  · rw [closedAt, map_serial_renumber]
    exact h.nodup.sublist ((List.eraseIdx_sublist _ _).map Window.serial)
  · obtain ⟨i, hi⟩ := List.mem_iff_getElem?.1 hwindow
    obtain ⟨old, hold, rfl⟩ := getElem?_renumber hi
    exact h.created old (List.mem_of_mem_eraseIdx (List.mem_of_getElem? hold))
  · rw [closedAt, length_renumber]
    exact inRange_adjust hleft m.activeWindowIndex
  · rw [closedAt, length_renumber]
    exact inRange_adjust hleft m.lastWindowIndex
  · obtain ⟨old, -, rfl⟩ := getElem?_renumber hi
    rfl

/-- The window of a kept index is another one exactly if it was moved and the index was not. -/
theorem getElem?_eraseIdx_min {serials : List Nat} (hnodup : serials.Nodup) {p a : Nat}
    (hlength : 1 < serials.length) (ha : a < serials.length) (hp : p < serials.length)
    (hne : p ≠ a) :
    (serials.eraseIdx p)[min a (serials.length - 2)]? = serials[a]? ↔
      (p < a → a + 1 = serials.length) := by
  rw [List.getElem?_eraseIdx]
  split
  · next hbefore => rw [List.getElem?_inj (by omega) hnodup]; omega
  · next hafter => rw [List.getElem?_inj (by omega) hnodup]; omega

theorem map_windowAt (m : TuiContext) (i : Nat) :
    (m.windowAt (i : Int)).map Window.serial = (m.windows.map Window.serial)[i]? := by
  rw [windowAt, if_neg (by omega), Int.toNat_natCast, List.getElem?_map]

theorem adjust_natCast {size : Nat} (hsize : 0 < size) (i : Nat) :
    adjust size (i : Int) = ((min i (size - 1) : Nat) : Int) := by
  dsimp only [adjust]
  split
  · split <;> omega
  · split <;> omega

/-- An index that is adjusted after an erasure names the same window exactly if it is steady. -/
theorem windowAt_closedAt {m : TuiContext} (h : m.Tidy) {serial p : Nat}
    (hlength : 1 < m.windows.length) (hplace : m.place serial = some p) {index : Int}
    (hrange : InRange m.windows.length index) :
    ((m.windowAt index).map Window.serial ≠ some serial →
      ((m.closedAt p).windowAt (adjust (m.windows.eraseIdx p).length index)).map Window.serial =
        (m.windowAt index).map Window.serial) ↔ m.Steady p index := by
  obtain ⟨a, rfl⟩ := Int.eq_ofNat_of_zero_le hrange.1
  have ha : a < m.windows.length := by
    have hhigh := hrange.2
    omega
  have hserial := getElem?_of_place hplace
  have hp : p < (m.windows.map Window.serial).length := (List.getElem?_eq_some_iff.1 hserial).1
  have hp' := hp
  rw [List.length_map] at hp'
  have hleft : (m.windows.eraseIdx p).length = m.windows.length - 1 := List.length_eraseIdx_of_lt hp'
  rw [adjust_natCast (by omega), map_windowAt, map_windowAt, hleft, closedAt, map_serial_renumber,
    ← List.eraseIdx_map, ← hserial, ne_eq,
    List.getElem?_inj (by rw [List.length_map]; exact ha) h.nodup]
  by_cases hsame : a = p
  · subst hsame
    refine iff_of_true (fun hne => absurd rfl hne) fun hlt => ?_
    omega
  · have hiff := getElem?_eraseIdx_min h.nodup (p := p) (a := a)
      (by rw [List.length_map]; exact hlength) (by rw [List.length_map]; exact ha) hp
      (Ne.symm hsame)
    rw [List.length_map] at hiff
    have hmin : m.windows.length - 1 - 1 = m.windows.length - 2 := by omega
    rw [hmin, imp_iff_right hsame, hiff, Steady]
    omega

theorem clamped_of_inRange {m : TuiContext} (hwindows : 0 < m.windows.length) {index : Int}
    (h : InRange m.windows.length index) : m.clamped index = index := by
  dsimp only [InRange] at h
  rw [clamped, if_neg (by omega), if_neg (by omega)]

theorem kept_closedAt {m : TuiContext} {p : Nat} :
    (∀ window ∈ (m.closedAt p).windows, ∀ name,
      (m.closedAt p).renamedTo window.serial = some name → window.name = name) ↔
        m.Renumbered p := by
  constructor
  · intro h i window hi name hname
    have hnew : (m.closedAt p).windows[i]? = some { window with name := windowName i } := by
      rw [closedAt, renumber, List.getElem?_mapIdx, hi, Option.map_some]
    exact (h _ (List.mem_of_getElem? hnew) name hname).symm
  · intro h window hwindow name hname
    obtain ⟨i, hi⟩ := List.mem_iff_getElem?.1 hwindow
    obtain ⟨old, hold, rfl⟩ := getElem?_renumber hi
    exact (h i old hold name hname).symm

/-! ## One call -/

theorem step_of_closes {m : TuiContext} {c : Call} {serial : Nat} (h : m.closes c = some serial) :
    m.step c = (m.closeWindow serial).2 := by
  cases c with
  | closeWindow serial' =>
      cases h
      rfl
  | closeActiveWindow =>
      rw [closes, Option.map_eq_some_iff] at h
      obtain ⟨window, hactive, rfl⟩ := h
      rw [step, perform, closeActiveWindow, hactive]
  | createWindow => cases h
  | focusWindow index => cases h
  | focusNextWindow => cases h
  | focusPreviousWindow => cases h
  | focusLastWindow => cases h
  | renameWindow args => cases h

/-- A call that closes nothing keeps the invariant and the names. -/
theorem other_step {m : TuiContext} (h : m.Tidy) {c : Call} (hc : m.closes c = none) :
    (m.step c).Tidy ∧ (m.NamesRight → ∀ window ∈ (m.step c).windows, ∀ name,
      (m.step c).renamedTo window.serial = some name → window.name = name) := by
  have hrefocused : ∀ {m'}, Refocused m m' → m'.Tidy ∧ (m.NamesRight → ∀ window ∈ m'.windows,
      ∀ name, m'.renamedTo window.serial = some name → window.name = name) :=
    fun hm' => ⟨hm'.tidy h, hm'.kept⟩
  cases c with
  | createWindow => exact ⟨tidy_createWindow h, kept_createWindow h⟩
  | closeWindow serial => cases hc
  | closeActiveWindow =>
      rw [closes, Option.map_eq_none_iff] at hc
      rw [step, perform, closeActiveWindow, hc]
      exact hrefocused (.refl h)
  | focusWindow index => exact hrefocused (refocused_focusWindow h index)
  | focusNextWindow => exact hrefocused (refocused_focusNextWindow h)
  | focusPreviousWindow => exact hrefocused (refocused_focusPreviousWindow h)
  | focusLastWindow => exact hrefocused (refocused_focusLastWindow h)
  | renameWindow args =>
      exact ⟨tidy_renameWindow h args, fun hright => kept_renameWindow h hright args⟩

theorem tidy_step (m : TuiContext) (c : Call) (h : m.Tidy) : (m.step c).Tidy := by
  cases hc : m.closes c with
  | none => exact (other_step h hc).1
  | some serial =>
      rw [step_of_closes hc]
      rcases closeWindow_cases m serial with ⟨heq, -⟩ | ⟨place, hlength, -, heq⟩
      · rw [heq]
        exact h
      · rw [heq]
        exact tidy_closedAt h hlength

theorem right_step (m : TuiContext) (c : Call) (h : m.Tidy) (hright : m.NamesRight) :
    m.FocusKept c ∧ (m.step c).NamesRight ↔ m.Careful c := by
  have htidy := tidy_step m c h
  have hnames : (m.step c).NamesRight ↔ ∀ window ∈ (m.step c).windows, ∀ name,
      (m.step c).renamedTo window.serial = some name → window.name = name :=
    ⟨NamesRight.kept, fun hkept => ⟨hkept, htidy.distinct⟩⟩
  rw [hnames]
  cases hc : m.closes c with
  | none =>
      refine iff_of_true ⟨⟨?_, ?_⟩, (other_step h hc).2 hright⟩ fun _ => ?_
      all_goals
        intro serial hserial
        rw [hc] at hserial
        cases hserial
  | some serial =>
      have hsteps : m.FocusKept c ↔
          (m.activeWindow.map Window.serial ≠ some serial →
            (m.step c).activeWindow.map Window.serial = m.activeWindow.map Window.serial) ∧
          (m.lastWindow.map Window.serial ≠ some serial →
            (m.step c).lastWindow.map Window.serial = m.lastWindow.map Window.serial) := by
        constructor
        · intro hkept
          exact ⟨hkept.active serial hc, hkept.last serial hc⟩
        · rintro ⟨hactive, hlast⟩
          refine ⟨fun serial' hserial' => ?_, fun serial' hserial' => ?_⟩
          · rw [hc] at hserial'
            cases hserial'
            exact hactive
          · rw [hc] at hserial'
            cases hserial'
            exact hlast
      rw [hsteps, step_of_closes hc, Careful, hc]
      rcases closeWindow_cases m serial with ⟨heq, hnone⟩ | ⟨place, hlength, hplace, heq⟩
      · rw [heq]
        refine iff_of_true ⟨⟨fun _ => rfl, fun _ => rfl⟩, hright.kept⟩ ?_
        intro hlength serial' hserial' place hplace
        cases hserial'
        rw [hnone hlength] at hplace
        cases hplace
      · have hclosed : 0 < (m.closedAt place).windows.length := by
          have hle := List.le_length_eraseIdx m.windows place
          rw [closedAt, length_renumber]
          omega
        have htidy' : (m.closedAt place).Tidy := tidy_closedAt h hlength
        have hactive := windowAt_closedAt h hlength hplace h.active
        have hlast := windowAt_closedAt h hlength hplace h.last
        rw [heq, kept_closedAt, lastWindow, lastWindow, clamped_of_inRange hclosed htidy'.last,
          clamped_of_inRange (by omega) h.last, activeWindow, activeWindow]
        simp only [closedAt] at hactive hlast ⊢
        rw [hactive, hlast]
        simp only [hlength, Option.mem_def, Option.some.injEq, forall_eq', hplace, true_imp_iff,
          and_assoc]

/-! ## Runs -/

/-- What is promised of the windows, for a run from the given state. -/
structure KeepsWindows (m : TuiContext) (calls : List Call) : Prop where
  names : Runs.Throughout step NamesRight m calls
  focus : Runs.Always step FocusKept m calls

/-- The promise is kept by a run exactly if all its calls are careful. -/
theorem keepsWindows_iff (calls : List Call) :
    KeepsWindows {} calls ↔ Runs.Always step Careful {} calls := by
  have htidy : Tidy {} := by
    refine ⟨List.nodup_nil, ?_, fun _ _ => rfl, ⟨by decide, by decide⟩, ⟨by decide, by decide⟩, ?_⟩
    · intro window hwindow
      cases hwindow
    · intro i window hi
      cases hi
  have hright : NamesRight {} := by
    refine ⟨?_, htidy.distinct⟩
    intro window hwindow
    cases hwindow
  have hiff := @Runs.throughout_and_always_iff _ _ step NamesRight Careful _ calls Tidy FocusKept
    tidy_step right_step htidy hright
  rw [← hiff]
  exact ⟨fun h => ⟨h.names, h.focus⟩, fun h => ⟨h.1, h.2⟩⟩

/-- The second of three windows is active when the first one is closed: then the third is. -/
theorem first_not_keepsWindows :
    ¬ KeepsWindows {}
      [.createWindow, .createWindow, .createWindow, .focusWindow 1, .closeWindow 0] := by
  intro h
  have hactive := h.focus.2.2.2.2.1.active 0 rfl
  revert hactive
  decide +kernel

end Nazg.Tui.TuiContext

import Mathlib.Data.List.Nodup
import Nazg.Lib.Runs
import Nazg.Tui.MenuManager

/-!
# The life of a menu

The current menu is the one that is active: it was loaded or resumed and not unloaded since.
Every call keeps this, but for two kinds: a load that fails after the current menu was
unloaded for it, and a clearing of the stack, which unloads the menus below the current one
a second time.
-/

namespace Nazg.Tui

open Lib

inductive Life where
  | fresh
  | active
  | inactive
  | broken
  deriving DecidableEq

/-- From `on_load` the calls alternate between `on_unload` and `on_resume`. -/
def Life.next : Life → MenuCall → Life
  | .fresh, .onLoad => .active
  | .active, .onUnload => .inactive
  | .inactive, .onResume => .active
  | life, .build => life
  | life, .saveState => life
  | life, .restoreState => life
  | _, _ => .broken

/-- The life of a menu, by the log. -/
def lifeIn (log : List (Nat × MenuCall)) (serial : Nat) : Life :=
  log.foldl (fun life entry => if entry.1 = serial then life.next entry.2 else life) .fresh

theorem lifeIn_append (log : List (Nat × MenuCall)) (k : Nat) (c : MenuCall) (serial : Nat) :
    lifeIn (log ++ [(k, c)]) serial =
      if k = serial then (lifeIn log serial).next c else lifeIn log serial := by
  rw [lifeIn, List.foldl_append]
  rfl

theorem lifeIn_fresh {log : List (Nat × MenuCall)} {serial : Nat}
    (h : ∀ entry ∈ log, entry.1 ≠ serial) : lifeIn log serial = .fresh := by
  rw [lifeIn]
  induction log with
  | nil => rfl
  | cons entry log ih =>
      rw [List.foldl_cons, if_neg (h entry List.mem_cons_self)]
      exact ih fun e he => h e (List.mem_cons_of_mem entry he)

/-- One call on each of some menus. -/
theorem lifeIn_append_map {serials : List Nat} (hnodup : serials.Nodup) (c : MenuCall)
    (log : List (Nat × MenuCall)) (serial : Nat) :
    lifeIn (log ++ serials.map fun k => (k, c)) serial =
      if serial ∈ serials then (lifeIn log serial).next c else lifeIn log serial := by
  induction serials generalizing log with
  | nil => simp
  | cons k serials ih =>
      rw [List.nodup_cons] at hnodup
      have hsplit : log ++ (k :: serials).map (fun k => (k, c)) =
          (log ++ [(k, c)]) ++ serials.map fun k => (k, c) := by
        simp
      rw [hsplit, ih hnodup.2, lifeIn_append]
      by_cases hk : k = serial
      · subst hk
        simp [hnodup.1]
      · simp [hk, Ne.symm hk]

namespace MenuManager

def life (m : MenuManager) (serial : Nat) : Life := lifeIn m.log serial

def serials (m : MenuManager) : List Nat := m.stack.map fun entry => entry.menu.serial

def ids (m : MenuManager) : List Bytes := m.stack.map MenuStackEntry.menuId

/-- Every menu that was built is active if it is the current one, and inactive otherwise. -/
def LifeRight (m : MenuManager) : Prop :=
  ∀ k < m.built, m.life k = if m.serials.head? = some k then .active else .inactive

/-- The menus of the stack are different ones, and no menu is known before it is built. -/
structure Tidy (m : MenuManager) : Prop where
  nodup : m.serials.Nodup
  built : ∀ k ∈ m.serials, k < m.built
  known : ∀ entry ∈ m.log, entry.1 < m.built

@[simp] theorem life_updateMode (m : MenuManager) (k : Nat) : m.updateMode.life k = m.life k := rfl
@[simp] theorem serials_updateMode (m : MenuManager) : m.updateMode.serials = m.serials := rfl
@[simp] theorem built_updateMode (m : MenuManager) : m.updateMode.built = m.built := rfl

/-! ## Unloading the current menu -/

/-- What an unloading leaves: the menus, and all lives but that of the current menu. -/
structure Unloaded (m m' : MenuManager) : Prop where
  serials : m'.serials = m.serials
  ids : m'.ids = m.ids
  forwardStack : m'.forwardStack = m.forwardStack
  built : m'.built = m.built
  context : m'.context = m.context
  log : ∀ entry ∈ m'.log, entry ∈ m.log ∨ m.serials.head? = some entry.1
  life : ∀ k, m'.life k =
    if m.serials.head? = some k then (m.life k).next .onUnload else m.life k

theorem next_saveState (l : Life) : l.next .saveState = l := by cases l <;> rfl
theorem next_restoreState (l : Life) : l.next .restoreState = l := by cases l <;> rfl
theorem next_build (l : Life) : l.next .build = l := by cases l <;> rfl

theorem unloaded_unloadCurrent (m : MenuManager) : Unloaded m m.unloadCurrent := by
  rw [unloadCurrent]
  split
  · next hstack =>
      refine ⟨rfl, rfl, rfl, rfl, rfl, fun _ h => .inl h, fun k => ?_⟩
      simp [serials, hstack]
  · next current rest hstack =>
      have hhead : m.serials.head? = some current.menu.serial := by
        rw [serials, hstack, List.map_cons, List.head?_cons]
      rw [saveCurrent, hstack]
      dsimp only
      split
      · refine ⟨?_, ?_, rfl, rfl, rfl, fun entry hentry => ?_, fun k => ?_⟩
        · simp [serials, call, hstack]
        · simp [ids, call, hstack]
        · rw [hhead]
          simp only [call, List.mem_append, List.mem_singleton] at hentry
          rcases hentry with (hold | rfl) | rfl
          · exact .inl hold
          · exact .inr rfl
          · exact .inr rfl
        · simp only [hhead, Option.some.injEq, life, call, lifeIn_append, next_saveState, ite_self]
      · refine ⟨rfl, rfl, rfl, rfl, rfl, fun entry hentry => ?_, fun k => ?_⟩
        · rw [hhead]
          simp only [call, List.mem_append, List.mem_singleton] at hentry
          rcases hentry with hold | rfl
          · exact .inl hold
          · exact .inr rfl
        · simp only [hhead, Option.some.injEq, life, call, lifeIn_append]

/-- Nothing is current that is active. -/
theorem Unloaded.inactive {m m' : MenuManager} (h : Unloaded m m') (hright : m.LifeRight) {k : Nat}
    (hk : k < m.built) : m'.life k = .inactive := by
  rw [h.life, hright k hk]
  by_cases hhead : m.serials.head? = some k
  · rw [if_pos hhead, if_pos hhead]
    rfl
  · rw [if_neg hhead, if_neg hhead]

theorem Unloaded.known {m m' : MenuManager} (h : Unloaded m m') (htidy : m.Tidy) :
    ∀ entry ∈ m'.log, entry.1 < m.built := by
  intro entry hentry
  rcases h.log entry hentry with hold | hhead
  · exact htidy.known entry hold
  · exact htidy.built entry.1 (List.mem_of_mem_head? hhead)

/-! ## Loading -/

/-- What a load leaves: a new menu that is current, over those that were there. -/
structure Loaded (menuId : Bytes) (m m' : MenuManager) : Prop where
  serials : m'.serials = m.built :: m.serials
  ids : m'.ids = menuId :: m.ids
  forwardStack : m'.forwardStack = []
  built : m'.built = m.built + 1
  log : ∀ entry ∈ m'.log, entry ∈ m.unloadCurrent.log ∨ entry.1 = m.built
  life : ∀ k, m'.life k =
    if k = m.built then (m.unloadCurrent.life k).next .onLoad else m.unloadCurrent.life k

/-- The ways a load ends. -/
theorem load_cases (menuId : Bytes) (made : Made) (m : MenuManager) :
    menuId ∉ m.factories ∧ m.load menuId made = (false, m) ∨
      menuId ∈ m.factories ∧ (made = none ∨ m.context = none) ∧
        m.load menuId made = (false, m.unloadCurrent) ∨
      menuId ∈ m.factories ∧ made ≠ none ∧ m.context ≠ none ∧
        (m.load menuId made).1 = true ∧ Loaded menuId m (m.load menuId made).2 := by
  have hu := unloaded_unloadCurrent m
  by_cases hregistered : menuId ∈ m.factories
  · refine .inr ?_
    simp only [load, hregistered, not_true_eq_false, if_false, true_and, hu.context]
    cases made with
    | none => simp
    | some menu =>
        by_cases hcontext : m.context = none
        · simp [hcontext]
        · refine .inr ⟨by simp, hcontext, by simp [hcontext], ?_⟩
          dsimp only
          rw [if_neg hcontext]
          refine ⟨?_, ?_, rfl, ?_, fun entry hentry => ?_, fun k => ?_⟩
          · rw [serials_updateMode, ← hu.serials, ← hu.built]
            rfl
          · rw [← hu.ids]
            rfl
          · rw [← hu.built]
            rfl
          · simp only [updateMode, call, List.mem_append, List.mem_singleton] at hentry
            rcases hentry with (hold | rfl) | rfl
            · exact .inl hold
            · exact .inr hu.built
            · exact .inr hu.built
          · rw [life_updateMode]
            simp only [life, call, lifeIn_append, next_build, ite_self, hu.built, eq_comm]
  · exact .inl ⟨hregistered, by simp [load, hregistered]⟩

/-- A load that goes through keeps the lives right. -/
theorem Loaded.lifeRight {menuId : Bytes} {m m' : MenuManager} (h : Loaded menuId m m')
    (htidy : m.Tidy) (hright : m.LifeRight) : m'.LifeRight := by
  intro k hk
  have hu := unloaded_unloadCurrent m
  rw [h.built] at hk
  simp only [h.life, h.serials, List.head?_cons, Option.some.injEq]
  by_cases hnew : k = m.built
  · subst hnew
    have hfresh : m.unloadCurrent.life m.built = .fresh := by
      refine lifeIn_fresh fun entry hentry => ?_
      exact (hu.known htidy entry hentry).ne
    rw [if_pos rfl, if_pos rfl, hfresh]
    rfl
  · rw [if_neg hnew, if_neg (Ne.symm hnew)]
    exact hu.inactive hright (by omega)

theorem Loaded.tidy {menuId : Bytes} {m m' : MenuManager} (h : Loaded menuId m m')
    (htidy : m.Tidy) : m'.Tidy := by
  have hu := unloaded_unloadCurrent m
  refine ⟨?_, fun k hk => ?_, fun entry hentry => ?_⟩
  · rw [h.serials, List.nodup_cons]
    exact ⟨fun hmem => (htidy.built _ hmem).ne rfl, htidy.nodup⟩
  · rw [h.serials, List.mem_cons] at hk
    rw [h.built]
    rcases hk with rfl | hk
    · omega
    · exact (htidy.built k hk).trans (by omega)
  · rw [h.built]
    rcases h.log entry hentry with hold | hnew
    · exact (hu.known htidy entry hold).trans (by omega)
    · omega

/-! ## Going back -/

/-- What a step back leaves: the menu below is resumed. -/
structure WentBack (m m' : MenuManager) : Prop where
  menus : ∃ top below rest, m.serials = top :: below :: rest ∧ m'.serials = below :: rest ∧
    ∀ k, m'.life k = if k = below then (m.unloadCurrent.life k).next .onResume
      else m.unloadCurrent.life k
  ids : ∃ top rest, m.ids = top :: rest ∧ m'.ids = rest ∧ m'.forwardStack = top :: m.forwardStack
  built : m'.built = m.built
  log : ∀ entry ∈ m'.log, entry ∈ m.unloadCurrent.log ∨ entry.1 ∈ m.serials

theorem back_cases (m : MenuManager) :
    m.back = (false, m) ∨ m.back.1 = true ∧ WentBack m m.back.2 := by
  have hu := unloaded_unloadCurrent m
  rw [back]
  split
  · next current previous rest hstack =>
      have hserials : m.serials = current.menu.serial :: previous.menu.serial ::
          rest.map fun e => e.menu.serial := by
        rw [← hu.serials, serials, hstack, List.map_cons, List.map_cons]
      have hids : m.ids = current.menuId :: previous.menuId :: rest.map MenuStackEntry.menuId := by
        rw [← hu.ids, ids, hstack, List.map_cons, List.map_cons]
      refine .inr ⟨rfl, ⟨_, _, _, hserials, ?_, fun k => ?_⟩, ⟨_, _, hids, ?_, ?_⟩, ?_,
        fun entry hentry => ?_⟩
      · dsimp only
        split <;> rfl
      · dsimp only
        rw [life_updateMode]
        split
        · simp only [life, call, lifeIn_append, next_restoreState, ite_self, eq_comm]
        · simp only [life, call, lifeIn_append, eq_comm]
      · dsimp only
        split <;> rfl
      · dsimp only
        split <;> rfl
      · rw [← hu.built]
        dsimp only
        split <;> rfl
      · have hprevious : previous.menu.serial ∈ m.serials := by
          rw [hserials]
          simp
        dsimp only at hentry
        split at hentry
        · simp only [updateMode, call, List.mem_append, List.mem_singleton] at hentry
          rcases hentry with (hold | rfl) | rfl
          · exact .inl hold
          · exact .inr hprevious
          · exact .inr hprevious
        · simp only [updateMode, call, List.mem_append, List.mem_singleton] at hentry
          rcases hentry with hold | rfl
          · exact .inl hold
          · exact .inr hprevious
  · exact .inl rfl

theorem WentBack.lifeRight {m m' : MenuManager} (h : WentBack m m') (hright : m.LifeRight) :
    m'.LifeRight := by
  intro k hk
  obtain ⟨top, below, rest, hserials, hserials', hlife⟩ := h.menus
  rw [h.built] at hk
  have hinactive := (unloaded_unloadCurrent m).inactive hright hk
  simp only [hlife, hserials', List.head?_cons, Option.some.injEq, hinactive, eq_comm]
  split
  · rfl
  · rfl

theorem WentBack.tidy {m m' : MenuManager} (h : WentBack m m') (htidy : m.Tidy) : m'.Tidy := by
  obtain ⟨top, below, rest, hserials, hserials', -⟩ := h.menus
  have hsub : ∀ k ∈ m'.serials, k ∈ m.serials := by
    intro k hk
    rw [hserials'] at hk
    rw [hserials]
    exact List.mem_cons_of_mem top hk
  refine ⟨?_, fun k hk => ?_, fun entry hentry => ?_⟩
  · have hnodup := htidy.nodup
    rw [hserials, List.nodup_cons] at hnodup
    rw [hserials']
    exact hnodup.2
  · rw [h.built]
    exact htidy.built k (hsub k hk)
  · rw [h.built]
    rcases h.log entry hentry with hold | hmem
    · exact (unloaded_unloadCurrent m).known htidy entry hold
    · exact htidy.built _ hmem

/-! ## Going forward -/

/-- The same menus with the same lives. -/
structure SameLives (m m' : MenuManager) : Prop where
  serials : m'.serials = m.serials
  built : m'.built = m.built
  log : m'.log = m.log

theorem SameLives.tidy {m m' : MenuManager} (h : SameLives m m') (htidy : m.Tidy) : m'.Tidy := by
  refine ⟨?_, ?_, ?_⟩
  · rw [h.serials]
    exact htidy.nodup
  · rw [h.serials, h.built]
    exact htidy.built
  · rw [h.log, h.built]
    exact htidy.known

theorem SameLives.lifeRight {m m' : MenuManager} (h : SameLives m m') (hright : m.LifeRight) :
    m'.LifeRight := by
  intro k hk
  rw [h.built] at hk
  simp only [life, h.log, h.serials]
  exact hright k hk

/-- A step forward is a load of the latest id, but for the forward stack. -/
structure WentForward (menuId : Bytes) (saved : List Bytes) (made : Made) (m : MenuManager) :
    Prop where
  result : (m.forward made).1 = (load menuId made { m with forwardStack := saved }).1
  lives : SameLives (load menuId made { m with forwardStack := saved }).2 (m.forward made).2
  ids : (m.forward made).2.ids = (load menuId made { m with forwardStack := saved }).2.ids
  forwardStack : (m.forward made).2.forwardStack = saved

theorem wentForward {menuId : Bytes} {saved : List Bytes} {m : MenuManager}
    (h : m.forwardStack = menuId :: saved) (made : Made) : WentForward menuId saved made m := by
  refine ⟨?_, ⟨?_, ?_, ?_⟩, ?_, ?_⟩
  · simp only [forward, h]
  · simp only [forward, h]
    split <;> rfl
  · simp only [forward, h]
    split <;> rfl
  · simp only [forward, h]
    split <;> rfl
  · simp only [forward, h]
    split <;> rfl
  · simp only [forward, h]
    split <;> rfl

/-! ## Clearing the stack -/

theorem foldl_onUnload (entries : List MenuStackEntry) (m : MenuManager) :
    entries.foldl (fun m entry => call entry.menu .onUnload m) m =
      { m with
        log := m.log ++ (entries.map fun e => e.menu.serial).map fun k => (k, .onUnload) } := by
  induction entries generalizing m with
  | nil => simp
  | cons entry entries ih =>
      rw [List.foldl_cons, ih]
      simp [call]

theorem life_clearStack {m : MenuManager} (htidy : m.Tidy) (k : Nat) :
    m.clearStack.life k = if k ∈ m.serials then (m.life k).next .onUnload else m.life k := by
  have hnodup : (m.stack.reverse.map fun e => e.menu.serial).Nodup := by
    rw [List.map_reverse, List.nodup_reverse]
    exact htidy.nodup
  have hmem : k ∈ (m.stack.reverse.map fun e => e.menu.serial) ↔ k ∈ m.serials := by
    rw [List.map_reverse, List.mem_reverse]
    rfl
  rw [clearStack, life_updateMode, foldl_onUnload]
  simp only [life, lifeIn_append_map hnodup, hmem]

theorem tidy_clearStack {m : MenuManager} (htidy : m.Tidy) : m.clearStack.Tidy := by
  refine ⟨List.nodup_nil, fun k hk => absurd hk List.not_mem_nil, fun entry hentry => ?_⟩
  rw [clearStack, foldl_onUnload] at hentry ⊢
  simp only [updateMode, List.mem_append, List.mem_map, List.mem_reverse] at hentry
  rcases hentry with hold | ⟨k, ⟨e, he, rfl⟩, rfl⟩
  · exact htidy.known entry hold
  · exact htidy.built _ (List.mem_map.2 ⟨e, he, rfl⟩)

/-- Clearing keeps the lives right if there is nothing below the current menu. -/
theorem lifeRight_clearStack {m : MenuManager} (htidy : m.Tidy) (hright : m.LifeRight) :
    m.clearStack.LifeRight ↔ m.stack.length ≤ 1 := by
  have hbuilt : m.clearStack.built = m.built := by
    rw [clearStack, foldl_onUnload]
    rfl
  have hlife := life_clearStack htidy
  have hnext : ∀ k < m.built, m.clearStack.life k = .inactive ↔
      m.serials.head? = some k ∨ k ∉ m.serials := by
    intro k hk
    rw [hlife, hright k hk]
    by_cases hhead : m.serials.head? = some k
    · simp [hhead, List.mem_of_mem_head? hhead, Life.next]
    · by_cases hmem : k ∈ m.serials
      · simp [hhead, hmem, Life.next]
      · simp [hhead, hmem]
  have hcleared : m.clearStack.LifeRight ↔ ∀ k < m.built, m.clearStack.life k = .inactive := by
    rw [LifeRight, hbuilt]
    rfl
  rw [hcleared]
  constructor
  · intro h
    by_contra hlength
    obtain ⟨top, below, rest, hserials⟩ : ∃ top below rest, m.serials = top :: below :: rest := by
      rw [serials]
      cases hstack : m.stack with
      | nil => simp [hstack] at hlength
      | cons top stack =>
          cases stack with
          | nil => simp [hstack] at hlength
          | cons below rest => exact ⟨_, _, _, rfl⟩
    have hbelow : below ∈ m.serials := by
      rw [hserials]
      simp
    have hlast := (hnext below (htidy.built below hbelow)).1 (h below (htidy.built below hbelow))
    have hnodup := htidy.nodup
    rw [hserials] at hlast hnodup
    simp at hlast hnodup
    exact hnodup.1.1 hlast
  · intro hlength k hk
    rw [hnext k hk, serials]
    cases hstack : m.stack with
    | nil => simp
    | cons top stack =>
        cases stack with
        | nil =>
            by_cases htop : top.menu.serial = k
            · simp [htop]
            · simp [Ne.symm htop]
        | cons below rest => simp [hstack] at hlength

/-! ## One call -/

theorem Unloaded.tidy {m m' : MenuManager} (h : Unloaded m m') (htidy : m.Tidy) : m'.Tidy := by
  refine ⟨?_, ?_, ?_⟩
  · rw [h.serials]
    exact htidy.nodup
  · rw [h.serials, h.built]
    exact htidy.built
  · rw [h.built]
    exact h.known htidy

theorem tidy_load {m : MenuManager} (htidy : m.Tidy) (menuId : Bytes) (made : Made) :
    (m.load menuId made).2.Tidy := by
  rcases load_cases menuId made m with ⟨-, heq⟩ | ⟨-, -, heq⟩ | ⟨-, -, -, -, hloaded⟩
  · rw [heq]
    exact htidy
  · rw [heq]
    exact (unloaded_unloadCurrent m).tidy htidy
  · exact hloaded.tidy htidy

theorem sameLives_forwardStack (m : MenuManager) (saved : List Bytes) :
    SameLives m { m with forwardStack := saved } := ⟨rfl, rfl, rfl⟩

theorem tidy_step (m : MenuManager) (c : Call) (htidy : m.Tidy) : (m.step c).Tidy := by
  cases c with
  | load menuId made => exact tidy_load htidy menuId made
  | back =>
      rw [step, perform]
      rcases back_cases m with heq | ⟨-, hback⟩
      · rw [heq]
        exact htidy
      · exact hback.tidy htidy
  | forward made =>
      rw [step, perform]
      cases hforward : m.forwardStack with
      | nil =>
          simp only [forward, hforward]
          exact htidy
      | cons menuId saved =>
          have hstart := (sameLives_forwardStack m saved).tidy htidy
          exact (wentForward hforward made).lives.tidy (tidy_load hstart menuId made)
  | clearStack => exact tidy_clearStack htidy

/-- The same menus, in the same states, and the same way forward. -/
structure SameMenus (m m' : MenuManager) : Prop where
  stack : m'.stack = m.stack
  forwardStack : m'.forwardStack = m.forwardStack
  life : ∀ k, m'.life k = m.life k

/-- A load or a step forward that fails leaves everything as it was. -/
def FailsClean (m : MenuManager) : Call → Prop
  | .load menuId made =>
      (m.load menuId made).1 = false → SameMenus m (m.load menuId made).2
  | .forward made => (m.forward made).1 = false → SameMenus m (m.forward made).2
  | .back => True
  | .clearStack => True

/-- A menu can be made of the id. -/
def CanMake (m : MenuManager) (menuId : Bytes) (made : Made) : Prop :=
  menuId ∈ m.factories ∧ made ≠ none ∧ m.context ≠ none

/-- No load fails after the current menu is unloaded for it, and no stack with a menu below
the current one is cleared. -/
def Careful (m : MenuManager) : Call → Prop
  | .load menuId made => m.stack ≠ [] → menuId ∈ m.factories → m.CanMake menuId made
  | .back => True
  | .forward made => ∀ menuId ∈ m.forwardStack.head?, m.CanMake menuId made
  | .clearStack => m.stack.length ≤ 1

/-- The current menu is not left as it was. -/
theorem life_unloadCurrent_ne {m : MenuManager} (htidy : m.Tidy) (hright : m.LifeRight)
    (hstack : m.stack ≠ []) : ∃ k, m.unloadCurrent.life k ≠ m.life k := by
  obtain ⟨top, rest, hserials⟩ : ∃ top rest, m.serials = top :: rest := by
    rw [serials]
    cases hs : m.stack with
    | nil => exact absurd hs hstack
    | cons top rest => exact ⟨_, _, rfl⟩
  have hhead : m.serials.head? = some top := by rw [hserials, List.head?_cons]
  have hbuilt : top < m.built := htidy.built top (List.mem_of_mem_head? hhead)
  refine ⟨top, ?_⟩
  rw [(unloaded_unloadCurrent m).life, if_pos hhead, hright top hbuilt, if_pos hhead]
  simp [Life.next]

theorem right_load {m : MenuManager} (htidy : m.Tidy) (hright : m.LifeRight) (menuId : Bytes)
    (made : Made) : m.FailsClean (.load menuId made) ∧ (m.load menuId made).2.LifeRight ↔
      m.Careful (.load menuId made) := by
  rw [FailsClean, Careful, CanMake]
  rcases load_cases menuId made m with
    ⟨hunknown, heq⟩ | ⟨hknown, hnothing, heq⟩ | ⟨hknown, hmade, hcontext, htrue, hloaded⟩
  · rw [heq]
    refine iff_of_true ⟨fun _ => ⟨rfl, rfl, fun _ => rfl⟩, hright⟩ ?_
    exact fun _ h => absurd h hunknown
  · rw [heq]
    by_cases hstack : m.stack = []
    · have hsame : m.unloadCurrent = m := by rw [unloadCurrent, hstack]
      rw [hsame]
      refine iff_of_true ⟨fun _ => ⟨rfl, rfl, fun _ => rfl⟩, hright⟩ ?_
      exact fun h => absurd hstack h
    · obtain ⟨k, hk⟩ := life_unloadCurrent_ne htidy hright hstack
      refine iff_of_false (fun h => hk ((h.1 rfl).life k)) fun h => ?_
      obtain ⟨-, hmade, hcontext⟩ := h hstack hknown
      exact hnothing.elim hmade hcontext
  · rw [htrue]
    refine iff_of_true ⟨fun h => Bool.noConfusion h, hloaded.lifeRight htidy hright⟩ ?_
    exact fun _ _ => ⟨hknown, hmade, hcontext⟩

theorem right_forward {m : MenuManager} (htidy : m.Tidy) (hright : m.LifeRight) (made : Made) :
    m.FailsClean (.forward made) ∧ (m.forward made).2.LifeRight ↔ m.Careful (.forward made) := by
  rw [FailsClean, Careful]
  cases hforward : m.forwardStack with
  | nil =>
      have heq : m.forward made = (false, m) := by simp only [forward, hforward]
      rw [heq]
      refine iff_of_true ⟨fun _ => ⟨rfl, rfl, fun _ => rfl⟩, hright⟩ ?_
      simp
  | cons menuId saved =>
      have hwent := wentForward hforward made
      have hsame := sameLives_forwardStack m saved
      have hshorter : ¬ SameMenus m (m.forward made).2 := by
        intro h
        have hlength := congrArg List.length (h.forwardStack.symm.trans hwent.forwardStack)
        rw [hforward, List.length_cons] at hlength
        omega
      simp only [List.head?_cons, Option.mem_some_iff, forall_eq', CanMake]
      rcases load_cases menuId made { m with forwardStack := saved } with
        ⟨hunknown, heq⟩ | ⟨-, hnothing, heq⟩ | ⟨hknown, hmade, hcontext, htrue, hloaded⟩
      · rw [hwent.result, heq]
        exact iff_of_false (fun h => hshorter (h.1 rfl)) fun h => hunknown h.1
      · rw [hwent.result, heq]
        exact iff_of_false (fun h => hshorter (h.1 rfl)) fun h => hnothing.elim h.2.1 h.2.2
      · rw [hwent.result, htrue]
        have hlater := hloaded.lifeRight (hsame.tidy htidy) (hsame.lifeRight hright)
        refine iff_of_true ⟨fun h => Bool.noConfusion h, hwent.lives.lifeRight hlater⟩ ?_
        exact ⟨hknown, hmade, hcontext⟩

theorem right_step (m : MenuManager) (c : Call) (htidy : m.Tidy) (hright : m.LifeRight) :
    m.FailsClean c ∧ (m.step c).LifeRight ↔ m.Careful c := by
  cases c with
  | load menuId made => exact right_load htidy hright menuId made
  | back =>
      refine iff_of_true ⟨trivial, ?_⟩ trivial
      rw [step, perform]
      rcases back_cases m with heq | ⟨-, hback⟩
      · rw [heq]
        exact hright
      · exact hback.lifeRight hright
  | forward made => exact right_forward htidy hright made
  | clearStack => exact (and_iff_right trivial).trans (lifeRight_clearStack htidy hright)

/-- A step back and a step forward that succeed lead to where they began. -/
theorem ids_back_forward {m : MenuManager} {made : Made} (hback : m.back.1 = true)
    (hforward : (m.back.2.forward made).1 = true) :
    (m.back.2.forward made).2.ids = m.ids ∧
      (m.back.2.forward made).2.forwardStack = m.forwardStack := by
  rcases back_cases m with heq | ⟨-, hwent⟩
  · rw [heq] at hback
    exact Bool.noConfusion hback
  · obtain ⟨top, rest, hids, hids', hlater⟩ := hwent.ids
    have hwent' := wentForward hlater made
    refine ⟨?_, hwent'.forwardStack⟩
    rw [hwent'.result] at hforward
    rw [hwent'.ids]
    rcases load_cases top made { m.back.2 with forwardStack := m.forwardStack } with
      ⟨-, heq⟩ | ⟨-, -, heq⟩ | ⟨-, -, -, -, hloaded⟩
    · rw [heq] at hforward
      exact Bool.noConfusion hforward
    · rw [heq] at hforward
      exact Bool.noConfusion hforward
    · rw [hloaded.ids, hids]
      exact congrArg (top :: ·) hids'

/-! ## Runs -/

/-- What is promised of the menus, for a run from the given state. -/
structure KeepsMenus (m : MenuManager) (calls : List Call) : Prop where
  lives : Runs.Throughout step LifeRight m calls
  fails : Runs.Always step FailsClean m calls
  returns : ∀ before made after, calls = before ++ .back :: .forward made :: after →
    (Runs.run step m before).back.1 = true →
    ((Runs.run step m before).back.2.forward made).1 = true →
    (Runs.run step m (before ++ [.back, .forward made])).ids = (Runs.run step m before).ids ∧
      (Runs.run step m (before ++ [.back, .forward made])).forwardStack =
        (Runs.run step m before).forwardStack

/-- The promise is kept by a run exactly if all its calls are careful. -/
theorem keepsMenus_iff (factories : List Bytes) (context : Option ModeManager)
    (calls : List Call) :
    KeepsMenus { factories := factories, context := context } calls ↔
      Runs.Always step Careful { factories := factories, context := context } calls := by
  have htidy : Tidy { factories := factories, context := context } :=
    ⟨List.nodup_nil, fun _ h => absurd h List.not_mem_nil, fun _ h => absurd h List.not_mem_nil⟩
  have hright : LifeRight { factories := factories, context := context } := by
    intro k hk
    exact absurd hk (Nat.not_lt_zero k)
  have hiff := @Runs.throughout_and_always_iff _ _ step LifeRight Careful _ calls Tidy FailsClean
    tidy_step right_step htidy hright
  refine ⟨fun h => hiff.1 ⟨h.lives, h.fails⟩, fun h => ?_⟩
  obtain ⟨hlives, hfails⟩ := hiff.2 h
  refine ⟨hlives, hfails, fun before made after _ hback hforward => ?_⟩
  rw [Runs.run_append]
  exact ids_back_forward hback hforward

/-- A menu is open when another one cannot be made: it is unloaded all the same. -/
theorem second_not_keepsMenus :
    ¬ KeepsMenus { factories := [bytes "main", bytes "help"], context := some {} }
      [.load (bytes "main") (some (true, .empty)), .load (bytes "help") none] := by
  intro h
  have hclean := (h.fails.2.1 (by decide +kernel)).life 0
  revert hclean
  decide +kernel

end MenuManager

end Nazg.Tui

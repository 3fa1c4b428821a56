import Nazg.Proofs.MenuMoves
import Nazg.Proofs.Reaping
import Nazg.Proofs.ShellInput
import Nazg.Proofs.WindowList

/-!
# Panes and their owners

A window makes panes and hands those that are closed or replaced to the reaper, which releases
them in a thread of its own. The numbers of the panes of a window grow, so a pane that was given
away does not come back: it is handed over once, and no key is written to it afterwards.
-/

namespace Nazg.Tui

open Lib

/-! ## A window -/

namespace Window

/-- The panes are different and were made. -/
structure Owns (w : Window) : Prop where
  nodup : w.panes.Nodup
  made : ∀ pane ∈ w.panes, pane < w.made

/-- What is handed over was owned, and what is owned then is new or was not handed over. -/
structure Hands (handed : List Nat) (w w' : Window) : Prop where
  made : w.made ≤ w'.made
  nodup : w'.panes.Nodup
  panes : ∀ pane ∈ w'.panes, pane ∈ w.panes ∧ pane ∉ handed ∨ w.made ≤ pane ∧ pane < w'.made
  owned : ∀ pane ∈ handed, pane ∈ w.panes
  once : handed.Nodup

variable {w w' : Window} {handed : List Nat}

theorem Hands.owns (h : Hands handed w w') (hw : w.Owns) : w'.Owns := by
  refine ⟨h.nodup, fun pane hpane => ?_⟩
  rcases h.panes pane hpane with ⟨hold, -⟩ | ⟨-, hlt⟩
  · exact lt_of_lt_of_le (hw.made pane hold) h.made
  · exact hlt

theorem Owns.hands_same (h : w.Owns) (hpanes : w'.panes = w.panes) (hmade : w'.made = w.made) :
    Hands [] w w' where
  made := hmade.ge
  nodup := hpanes ▸ h.nodup
  panes := by
    intro pane hpane
    rw [hpanes] at hpane
    exact .inl ⟨hpane, List.not_mem_nil⟩
  owned := by simp
  once := List.nodup_nil

theorem owns_initial : initial.Owns := ⟨by simp [initial], by simp [initial]⟩

theorem hands_splitActive (h : w.Owns) (direction : SplitDirection) :
    Hands [] w (w.splitActive direction).2 := by
  have hnew : w.made ∉ w.panes := fun hmem => lt_irrefl _ (h.made _ hmem)
  rw [splitActive.eq_def]
  split
  · exact h.hands_same rfl rfl
  · next active _ =>
      have hunzoomed : ∀ v : Window, v = (if w.zoomed then w.unzoom else w) →
          v.panes = w.panes ∧ v.made = w.made := by
        rintro v rfl
        split <;> exact ⟨rfl, rfl⟩
      generalize hv : (if w.zoomed then w.unzoom else w) = v
      obtain ⟨hpanes, hmade⟩ := hunzoomed v hv.symm
      dsimp only
      rw [hpanes, hmade]
      split
      · refine ⟨Nat.le_succ _, ?_, ?_, by simp, List.nodup_nil⟩
        · rw [setActiveLocked, List.nodup_append]
          refine ⟨h.nodup, List.nodup_singleton _, ?_⟩
          intro a ha b hb heq
          rw [List.mem_singleton] at hb
          exact hnew (by rwa [← hb, ← heq])
        · intro pane hpane
          rcases List.mem_append.1 hpane with hold | hpane
          · exact .inl ⟨hold, List.not_mem_nil⟩
          · rw [List.mem_singleton] at hpane
            exact .inr ⟨hpane.ge, by simp [setActiveLocked, hpane]⟩
      · have hkept : (w.panes ++ [w.made]).filter (fun pane => pane ≠ w.made) = w.panes := by
          rw [List.filter_append, List.filter_eq_self.2]
          · simp
          · intro pane hpane
            exact decide_eq_true fun heq => hnew (heq ▸ hpane)
        refine ⟨Nat.le_succ _, ?_, ?_, by simp, List.nodup_nil⟩
        · rw [hkept]
          exact h.nodup
        · intro pane hpane
          rw [hkept] at hpane
          exact .inl ⟨hpane, List.not_mem_nil⟩

theorem hands_closeActive (removePane : Link Nat → Nat → Bool × Link Nat) (h : w.Owns) :
    Hands (w.closedPane removePane) w (w.closeActive removePane).2 := by
  cases hactive : w.activePane with
  | none =>
      simp only [closedPane, closeActive, hactive]
      exact h.hands_same rfl rfl
  | some active =>
      simp only [closedPane, closeActive, hactive]
      by_cases hlast : w.panes.length ≤ 1
      · simp only [hlast, if_true, Bool.false_eq_true, false_and, if_false]
        exact h.hands_same rfl rfl
      · have hunzoomed : ∀ v : Window,
            v = (if w.zoomed ∧ w.zoomTarget = some active then w.unzoom else w) →
              v.panes = w.panes ∧ v.made = w.made := by
          rintro v rfl
          split <;> exact ⟨rfl, rfl⟩
        generalize hv : (if w.zoomed ∧ w.zoomTarget = some active then w.unzoom else w) = v
        obtain ⟨hpanes, hmade⟩ := hunzoomed v hv.symm
        simp only [hlast, if_false]
        cases hremoved : (removePane v.layout active).1 with
        | false =>
            simp only [Bool.false_eq_true, if_false, false_and]
            exact h.hands_same hpanes hmade
        | true =>
            simp only [if_true, true_and]
            refine ⟨hmade.ge, ?_, ?_, ?_, ?_⟩
            · rw [setActiveLocked, hpanes]
              exact h.nodup.erase _
            · intro pane hpane
              rw [setActiveLocked, hpanes, h.nodup.mem_erase_iff] at hpane
              refine .inl ⟨hpane.2, fun hclosed => hpane.1 ?_⟩
              split at hclosed
              · exact List.mem_singleton.1 hclosed
              · exact absurd hclosed List.not_mem_nil
            · intro pane hclosed
              split at hclosed
              · next howned => exact List.mem_singleton.1 hclosed ▸ howned
              · exact absurd hclosed List.not_mem_nil
            · split
              · exact List.nodup_singleton _
              · exact List.nodup_nil

theorem hands_restoreLayout (h : w.Owns) : Hands w.replacedPanes w w.restoreLayout.2 := by
  cases hsaved : w.savedLayout with
  | none =>
      simp only [replacedPanes, restoreLayout, hsaved]
      exact h.hands_same rfl rfl
  | some saved =>
      simp only [replacedPanes, restoreLayout, hsaved]
      by_cases hnone : saved.snapshot.leafCount = 0
      · simp only [hnone, if_true, Bool.false_eq_true, if_false]
        exact h.hands_same rfl rfl
      · simp only [hnone, if_false]
        set count := saved.snapshot.leafCount
        cases hrestored : (saved.snapshot.restore (List.range' w.made count)).1 with
        | false =>
            simp only [Bool.false_eq_true, if_false]
            refine ⟨Nat.le_add_right _ _, h.nodup, ?_, by simp, List.nodup_nil⟩
            exact fun pane hpane => .inl ⟨hpane, List.not_mem_nil⟩
        | true =>
            simp only [if_true]
            refine ⟨Nat.le_add_right _ _, List.nodup_range', ?_, fun _ hpane => hpane, h.nodup⟩
            intro pane hpane
            exact .inr (List.mem_range'_1.1 hpane)

theorem hands_of_work {f : Window → Bool × Window} {handed : Window → List Nat}
    (hwork : Work f handed) (h : w.Owns) : Hands (handed w) w (f w).2 := by
  cases hwork with
  | unzoom =>
      dsimp only
      split <;> exact h.hands_same rfl rfl
  | split direction => exact hands_splitActive h direction
  | close => exact hands_closeActive Link.removePane h
  | navigate direction =>
      refine h.hands_same ?_ ?_ <;>
        (simp only [navigate]; split <;> [rfl; (split <;> rfl)])
  | zoom =>
      refine h.hands_same ?_ ?_ <;>
        (simp only [toggleZoom]; split <;> [rfl; (split <;> rfl)])
  | save =>
      refine h.hands_same ?_ ?_ <;>
        (simp only [saveLayout]; split <;> [rfl; (split <;> rfl)])
  | restore => exact hands_restoreLayout h

end Window

/-! ## The application -/

theorem TuiContext.created_le_step {m : TuiContext} (h : m.Tidy) (c : TuiContext.Call) :
    m.created ≤ (m.step c).created := by
  have hclosed : ∀ serial, m.created ≤ (m.closeWindow serial).2.created := by
    intro serial
    rcases closeWindow_cases m serial with ⟨heq, -⟩ | ⟨place, -, -, heq⟩
    · rw [heq]
    · rw [heq]
      exact le_rfl
  cases c with
  | createWindow => exact Nat.le_succ _
  | closeWindow serial => exact hclosed serial
  | closeActiveWindow =>
      rw [step, perform, closeActiveWindow]
      split
      · exact le_rfl
      · exact hclosed _
  | focusWindow index => exact (refocused_focusWindow h index).created.ge
  | focusNextWindow => exact (refocused_focusNextWindow h).created.ge
  | focusPreviousWindow => exact (refocused_focusPreviousWindow h).created.ge
  | focusLastWindow => exact (refocused_focusLastWindow h).created.ge
  | renameWindow args =>
      rw [step, perform, renameWindow.eq_def]
      split
      · exact le_rfl
      · split
        · exact le_rfl
        · exact le_rfl

theorem TuiContext.tidy_nothing : Tidy {} := by
  refine ⟨List.nodup_nil, by simp, fun _ _ => rfl, ?_, ?_, by simp⟩
  · simp [InRange]
  · simp [InRange]

namespace TuiApp

/-- What was handed over was made and is not owned. -/
structure Owned (a : TuiApp) : Prop where
  tidy : a.windows.Tidy
  owns : ∀ k, (a.contents k).Owns
  once : a.reaped.Nodup
  gone : ∀ p ∈ a.reaped, p.1 < a.windows.created ∧ p.2 < (a.contents p.1).made ∧
    p.2 ∉ (a.contents p.1).panes

/-- More is handed over, and nothing is written to a pane that had been. -/
structure Since (a b : TuiApp) : Prop where
  reaped : a.reaped <+: b.reaped
  sent : ∃ written, b.sent = a.sent ++ written ∧ ∀ e ∈ written, (e.1, e.2.1) ∉ a.reaped

variable {a b c : TuiApp} {answers : DockerAnswers}

theorem Since.of_eq (hreaped : b.reaped = a.reaped) (hsent : b.sent = a.sent) : Since a b := by
  refine ⟨?_, [], ?_, by simp⟩
  · exact ⟨[], by rw [List.append_nil, hreaped]⟩
  · rw [hsent, List.append_nil]

theorem Since.refl : Since a a := .of_eq rfl rfl

theorem Since.trans (h : Since a b) (h' : Since b c) : Since a c := by
  obtain ⟨written, hsent, hnot⟩ := h.sent
  obtain ⟨written', hsent', hnot'⟩ := h'.sent
  refine ⟨h.reaped.trans h'.reaped, written ++ written', ?_, fun e he => ?_⟩
  · rw [hsent', hsent, List.append_assoc]
  · rcases List.mem_append.1 he with he | he
    · exact hnot e he
    · exact fun hmem => hnot' e he (h.reaped.subset hmem)

theorem Owned.panes (h : a.Owned) (hpanes : a.Panes b) : b.Owned ∧ Since a b := by
  cases hpanes with
  | kept hsame =>
      simp only [Prod.mk.injEq] at hsame
      obtain ⟨hwindows, hcontents, hsent, hreaped⟩ := hsame
      refine ⟨⟨?_, ?_, ?_, ?_⟩, .of_eq hreaped hsent⟩
      · rw [hwindows]
        exact h.tidy
      · rw [hcontents]
        exact h.owns
      · rw [hreaped]
        exact h.once
      · rw [hwindows, hcontents, hreaped]
        exact h.gone
  | listed c hsame =>
      simp only [Prod.mk.injEq] at hsame
      obtain ⟨hwindows, hcontents, hsent, hreaped⟩ := hsame
      refine ⟨⟨?_, ?_, ?_, ?_⟩, .of_eq hreaped hsent⟩
      · rw [hwindows]
        exact TuiContext.tidy_step _ c h.tidy
      · rw [hcontents]
        exact h.owns
      · rw [hreaped]
        exact h.once
      · rw [hwindows, hcontents, hreaped]
        intro p hp
        obtain ⟨hserial, hgone⟩ := h.gone p hp
        exact ⟨lt_of_lt_of_le hserial (TuiContext.created_le_step h.tidy c), hgone⟩
  | opened hsame =>
      simp only [Prod.mk.injEq, setContents] at hsame
      obtain ⟨hwindows, hcontents, hsent, hreaped⟩ := hsame
      refine ⟨⟨?_, ?_, ?_, ?_⟩, .of_eq hreaped hsent⟩
      · rw [hwindows]
        exact TuiContext.tidy_createWindow h.tidy
      · intro k
        rw [hcontents]
        by_cases hk : k = a.windows.created
        · simp only [hk, if_true]
          exact Window.owns_initial
        · simp only [hk, if_false]
          exact h.owns k
      · rw [hreaped]
        exact h.once
      · rw [hwindows, hcontents, hreaped]
        intro p hp
        obtain ⟨hserial, hgone⟩ := h.gone p hp
        simp only [hserial.ne, if_false]
        exact ⟨Nat.lt_succ_of_lt hserial, hgone⟩
  | @worked f handed window hwork hactive hsame =>
      simp only [Prod.mk.injEq, setContents] at hsame
      obtain ⟨hwindows, hcontents, hsent, hreaped⟩ := hsame
      have hhands := Window.hands_of_work hwork (h.owns window.serial)
      have hserial : window.serial < a.windows.created :=
        h.tidy.created window (List.mem_of_getElem? (TuiContext.getElem?_of_activeWindow hactive))
      refine ⟨⟨?_, ?_, ?_, ?_⟩, ⟨?_, [], ?_, by simp⟩⟩
      · rw [hwindows]
        exact h.tidy
      · intro k
        rw [hcontents]
        by_cases hk : k = window.serial
        · simp only [hk, if_true]
          exact hhands.owns (h.owns window.serial)
        · simp only [hk, if_false]
          exact h.owns k
      · rw [hreaped, List.nodup_append]
        refine ⟨h.once, hhands.once.map fun _ _ heq => (Prod.mk.inj heq).2, ?_⟩
        intro p hp q hq heq
        obtain ⟨pane, hpane, rfl⟩ := List.mem_map.1 hq
        subst heq
        exact (h.gone _ hp).2.2 (hhands.owned pane hpane)
      · rw [hwindows, hcontents, hreaped]
        intro p hp
        rcases List.mem_append.1 hp with hp | hp
        · obtain ⟨hbefore, hmade, hnot⟩ := h.gone p hp
          by_cases hk : p.1 = window.serial
          · rw [hk] at hmade hnot
            simp only [hk, if_true]
            refine ⟨hserial, lt_of_lt_of_le hmade hhands.made, fun hpane => ?_⟩
            rcases hhands.panes _ hpane with ⟨hold, -⟩ | ⟨hnew, -⟩
            · exact hnot hold
            · omega
          · simp only [hk, if_false]
            exact ⟨hbefore, hmade, hnot⟩
        · obtain ⟨pane, hpane, rfl⟩ := List.mem_map.1 hp
          simp only [if_true]
          have howned := hhands.owned pane hpane
          have hmade := (h.owns window.serial).made pane howned
          refine ⟨hserial, lt_of_lt_of_le hmade hhands.made, fun hpane' => ?_⟩
          rcases hhands.panes _ hpane' with ⟨-, hnot⟩ | ⟨hnew, -⟩
          · exact hnot hpane
          · omega
      · rw [hreaped]
        exact List.prefix_append _ _
      · rw [hsent, List.append_nil]
  | @wrote window pane data howned hsame =>
      simp only [Prod.mk.injEq] at hsame
      obtain ⟨hwindows, hcontents, hsent, hreaped⟩ := hsame
      refine ⟨⟨?_, ?_, ?_, ?_⟩, ⟨?_, _, hsent, ?_⟩⟩
      · rw [hwindows]
        exact h.tidy
      · rw [hcontents]
        exact h.owns
      · rw [hreaped]
        exact h.once
      · rw [hwindows, hcontents, hreaped]
        exact h.gone
      · exact ⟨[], by rw [List.append_nil, hreaped]⟩
      · intro e he hmem
        rw [List.mem_singleton] at he
        subst he
        exact (h.gone _ hmem).2.2 howned

/-- A call on the menus leaves the windows and the panes alone. -/
theorem same_callMenu (menuId : Bytes) (entry : Nat × MenuCall) (a : TuiApp) :
    let b := a.callMenu answers menuId entry
    (b.windows, b.contents, b.sent, b.reaped) = (a.windows, a.contents, a.sent, a.reaped) := by
  intro b
  simp only [b, callMenu]
  split
  · rfl
  · simp only [activateDocker, onDocker, registerDockerCommands]
    split <;> rfl
  · rfl
  · rfl
  · split <;> rfl
  · rfl

theorem same_foldl_callMenu (menuId : Bytes) (entries : List (Nat × MenuCall)) (a : TuiApp) :
    let b := entries.foldl (callMenu answers menuId) a
    (b.windows, b.contents, b.sent, b.reaped) = (a.windows, a.contents, a.sent, a.reaped) := by
  induction entries generalizing a with
  | nil => rfl
  | cons entry entries ih => exact (ih _).trans (same_callMenu menuId entry a)

theorem Owned.chain (h : a.Owned) (hchain : Chain answers a b) : b.Owned ∧ Since a b := by
  induction hchain with
  | refl => exact ⟨h, .refl⟩
  | beside _ hbeside ih =>
      obtain ⟨howned, hsince⟩ := ih
      obtain ⟨howned', hsince'⟩ := howned.panes hbeside.panes
      exact ⟨howned', hsince.trans hsince'⟩
  | @main b top below index index' _ _ _ _ ih =>
      have hsame : b.Panes (b.setScreen top.menu.serial (.main index')) := .kept rfl
      obtain ⟨howned, hsince⟩ := ih.1.panes hsame
      exact ⟨howned, ih.2.trans hsince⟩
  | @docker b top below d f _ _ _ _ ih =>
      have hsame : b.Panes (b.onDocker top.menu.serial d f).2 := .kept rfl
      obtain ⟨howned, hsince⟩ := ih.1.panes hsame
      exact ⟨howned, ih.2.trans hsince⟩
  | @menus b menuId c _ hcall ih =>
      have hsame : b.Panes (b.callMenus answers menuId c).2 := by
        obtain ⟨calls, -, heq⟩ := callMenus_moved hcall answers b
        rw [heq]
        exact .kept (same_foldl_callMenu menuId calls _)
      obtain ⟨howned, hsince⟩ := ih.1.panes hsame
      exact ⟨howned, ih.2.trans hsince⟩

theorem owned_initial (store : Bool) : (initial store).Owned where
  tidy := TuiContext.tidy_nothing
  owns := fun _ => Window.owns_initial
  once := List.nodup_nil
  gone := by simp [initial]

theorem owned_run (store : Bool) (inputs : List Input) :
    (Runs.run step (initial store) inputs).Owned :=
  always_of_chain (P := Owned) (Q := fun _ => True) (owned_initial store)
    (fun _ _ _ _ h hchain => (h.chain hchain).1) inputs fun _ _ => trivial

/-- In every run, and however the thread of the reaper gets on: no pane is handed over twice or
owned after it was, and no event writes to a pane that the reaper has accepted. -/
theorem panes_handed_once (store : Bool) (inputs : List Input) (i : Input)
    {s : PaneReaper (Nat × Nat)} (h : PaneReaper.Reachable s)
    (hs : s.accepted <+: (Runs.run step (initial store) inputs).reaped) :
    let a := Runs.run step (initial store) inputs
    (s.released ++ s.held ++ s.queue).Nodup ∧
      (∀ p ∈ s.released ++ s.held ++ s.queue, p.2 < (a.contents p.1).made ∧
        p.2 ∉ (a.contents p.1).panes) ∧
      ∀ e ∈ (a.step i).sent.drop a.sent.length, (e.1, e.2.1) ∉ s.accepted := by
  intro a
  have howned : a.Owned := owned_run store inputs
  have horder := (PaneReaper.sound_of_reachable h).order
  obtain ⟨-, written, hsent, hnot⟩ := (howned.chain (chain_step a i)).2
  refine ⟨?_, fun p hp => ?_, fun e he haccepted => ?_⟩
  · rw [horder]
    exact howned.once.sublist hs.sublist
  · rw [horder] at hp
    exact (howned.gone p (hs.subset hp)).2
  · rw [hsent, List.drop_left'] at he
    · exact hnot e he (hs.subset haccepted)
    · rfl

/-- A window is made and split, and its second pane is closed. -/
def splitAndClose : List Input := typeText "\x02c\x02|\x02x"

theorem reaped_splitAndClose :
    (Runs.run step (initial false) splitAndClose).reaped = [(0, 1)] := by
  decide +kernel

theorem panes_handed_once_split :
    ∃ s : PaneReaper (Nat × Nat), s = ({} : PaneReaper (Nat × Nat)).enqueue (some (0, 1)) ∧
      ∀ p ∈ s.released ++ s.held ++ s.queue,
        p.2 ∉ ((Runs.run step (initial false) splitAndClose).contents p.1).panes := by
  refine ⟨_, rfl, fun p hp => ?_⟩
  have hreachable : PaneReaper.Reachable (({} : PaneReaper (Nat × Nat)).enqueue (some (0, 1))) :=
    .single (.enqueue (some (0, 1)))
  have haccepted : (({} : PaneReaper (Nat × Nat)).enqueue (some (0, 1))).accepted <+:
      (Runs.run step (initial false) splitAndClose).reaped := by
    rw [reaped_splitAndClose]
    exact List.prefix_refl _
  exact ((panes_handed_once false splitAndClose (calm, .custom) hreachable haccepted).2.1 p hp).2

end TuiApp

end Nazg.Tui

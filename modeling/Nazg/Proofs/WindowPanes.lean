import Mathlib.Data.List.Perm.Basic
import Nazg.Lib.Runs
import Nazg.Proofs.LayoutRemove
import Nazg.Tui.Window

/-!
# The four views of a window agree

The panes that a window owns, the leaves of its layout, the active pane and the zoom target
are updated one by one. As long as the layout removes a pane as it promises, every operation
keeps them together, but for `remove_pane`: it takes a pane from the window and leaves it in
the layout.
-/

namespace Nazg.Tui

open Lib

section Layouts

variable {α : Type*}

/-! ## Splitting -/

theorem findNode_of_notMem [DecidableEq α] {target : α} {t : Tree α} (h : target ∉ t.panes) :
    t.toLink.findNode target = none := by
  induction t with
  | leaf p =>
      have hne : p ≠ target := by
        intro heq
        exact h (by simp [Tree.panes, heq])
      simp [Tree.toLink, Link.leaf, Link.findNode, Link.isLeafOf, hne]
  | split d ratio l r ihl ihr =>
      rw [Tree.panes, List.mem_append, not_or] at h
      simp [Tree.toLink, Link.findNode, Link.isLeafOf, ihl h.1, ihr h.2]

theorem findNode_toLink [DecidableEq α] {target : α} {t : Tree α} (h : target ∈ t.panes)
    (newPane : α) (direction : SplitDirection) :
    ∃ path t', t.toLink.findNode target = some path ∧
      t.toLink.modify (Link.divide newPane direction) path = Tree.toLink t' ∧
      t'.panes.Perm (newPane :: t.panes) ∧ (t.Halved → t'.Halved) := by
  induction t with
  | leaf p =>
      have heq : p = target := by
        rw [Tree.panes, List.mem_singleton] at h
        exact h.symm
      refine ⟨[], .split direction (1 / 2) (.leaf p) (.leaf newPane), ?_, rfl, ?_, ?_⟩
      · simp [Tree.toLink, Link.leaf, Link.findNode, Link.isLeafOf, heq]
      · exact List.Perm.swap newPane p []
      · exact fun _ => ⟨rfl, trivial, trivial⟩
  | split d ratio l r ihl ihr =>
      by_cases hl : target ∈ l.panes
      · obtain ⟨path, t', hfind, hmodify, hperm, hhalved⟩ := ihl hl
        refine ⟨.left :: path, .split d ratio t' r, ?_, ?_, ?_,
          fun h => ⟨h.1, hhalved h.2.1, h.2.2⟩⟩
        · simp [Tree.toLink, Link.findNode, Link.isLeafOf, hfind]
        · rw [Tree.toLink, Link.modify, hmodify, Tree.toLink]
        · rw [Tree.panes, Tree.panes, ← List.cons_append]
          exact hperm.append_right r.panes
      · have hr : target ∈ r.panes := by
          rw [Tree.panes, List.mem_append] at h
          exact h.resolve_left hl
        obtain ⟨path, t', hfind, hmodify, hperm, hhalved⟩ := ihr hr
        refine ⟨.right :: path, .split d ratio l t', ?_, ?_, ?_,
          fun h => ⟨h.1, h.2.1, hhalved h.2.2⟩⟩
        · simp [Tree.toLink, Link.findNode, Link.isLeafOf, hfind, findNode_of_notMem hl]
        · rw [Tree.toLink, Link.modify, hmodify, Tree.toLink]
        · rw [Tree.panes, Tree.panes]
          exact (hperm.append_left l.panes).trans List.perm_middle

theorem splitPane_toLink [DecidableEq α] {target : α} {t : Tree α} (h : target ∈ t.panes)
    (newPane : α) (direction : SplitDirection) :
    ∃ t', t.toLink.splitPane target newPane direction = (true, Tree.toLink t') ∧
      t'.panes.Perm (newPane :: t.panes) ∧ (t.Halved → t'.Halved) := by
  obtain ⟨path, t', hfind, hmodify, hperm, hhalved⟩ := findNode_toLink h newPane direction
  exact ⟨t', by rw [Link.splitPane, hfind, ← hmodify], hperm, hhalved⟩

/-! ## Snapshots -/

theorem clone_toLink (t : Tree α) (counter : Nat) :
    (t.toLink.clone counter).2 = counter + t.panes.length := by
  induction t generalizing counter with
  | leaf p => rfl
  | split d ratio l r ihl ihr =>
      rw [Tree.toLink, Link.clone, Tree.panes, List.length_append]
      dsimp only
      rw [ihr, ihl]
      omega

/-- Built from a snapshot, a tree has its shape and the given panes. -/
theorem build_clone {β : Type*} (t : Tree α) (counter : Nat) (leaves : List β)
    (h : counter + t.panes.length ≤ leaves.length) :
    ∃ t' : Tree β, (t.toLink.clone counter).1.build leaves = t'.toLink ∧
      t'.panes = (leaves.drop counter).take t.panes.length := by
  induction t generalizing counter with
  | leaf p =>
      have hcounter : counter < leaves.length := h
      refine ⟨.leaf leaves[counter], ?_, ?_⟩
      · rw [Tree.toLink, Link.leaf, Link.clone, SnapLink.build, List.getElem?_eq_getElem hcounter]
        rfl
      · rw [List.drop_eq_getElem_cons hcounter]
        rfl
  | split d ratio l r ihl ihr =>
      rw [Tree.panes, List.length_append] at h
      obtain ⟨l', hl, hlpanes⟩ := ihl counter (by omega)
      obtain ⟨r', hr, hrpanes⟩ := ihr (counter + l.panes.length) (by omega)
      refine ⟨.split d ratio l' r', ?_, ?_⟩
      · rw [Tree.toLink, Link.clone]
        dsimp only
        rw [SnapLink.build, hl, clone_toLink, hr, Tree.toLink]
        cases hl' : l'.toLink with
        | null => exact absurd hl' l'.toLink_ne_null
        | node =>
            cases hr' : r'.toLink with
            | null => exact absurd hr' r'.toLink_ne_null
            | node => rfl
      · rw [Tree.panes, Tree.panes, hlpanes, hrpanes, List.length_append, List.take_add,
          List.drop_drop]

/-- Restoring a snapshot succeeds with as many panes as it has leaves. -/
theorem restore_snapshot {β : Type*} (t : Tree α) (leaves : List β)
    (h : leaves.length = t.panes.length) :
    ∃ t' : Tree β, t.toLink.snapshot.restore leaves = (true, t'.toLink) ∧ t'.panes = leaves := by
  obtain ⟨t', hbuild, hpanes⟩ := build_clone t 0 leaves (by omega)
  refine ⟨t', ?_, ?_⟩
  · rw [Snapshot.restore, Link.snapshot, clone_toLink]
    dsimp only
    cases hroot : (t.toLink.clone 0).1 with
    | null =>
        rw [hroot] at hbuild
        exact absurd hbuild.symm t'.toLink_ne_null
    | leaf i =>
        rw [hroot] at hbuild
        dsimp only
        rw [if_neg (by omega), hbuild]
        cases ht' : t'.toLink with
        | null => exact absurd ht' t'.toLink_ne_null
        | node => rfl
    | split d ratio l r =>
        rw [hroot] at hbuild
        dsimp only
        rw [if_neg (by omega), hbuild]
        cases ht' : t'.toLink with
        | null => exact absurd ht' t'.toLink_ne_null
        | node => rfl
  · rw [hpanes, List.drop_zero, ← h, List.take_length]

/-! ## Directions -/

theorem map_calculatePositions (root : Link α) (area : Rect) :
    (root.calculatePositions area).map Prod.fst = root.collectPanes := by
  fun_induction Link.calculatePositions root area with
  | case1 => rfl
  | case2 => rfl
  | case3 _ _ _ _ _ _ ihl ihr => rw [List.map_append, ihl, ihr, Link.collectPanes]
  | case4 _ _ _ _ _ _ ihl ihr => rw [List.map_append, ihl, ihr, Link.collectPanes]

theorem nearer_mem [DecidableEq α] {current pane : α} {center : Int × Int} {direction : Char}
    {best : Option α × Int} {position : α × Rect}
    (h : (Link.nearer current center direction best position).1 = some pane) :
    best.1 = some pane ∨ position.1 = pane := by
  rw [Link.nearer] at h
  split at h
  · exact .inl h
  · dsimp only at h
    split at h
    · exact .inl h
    · split at h
      · exact .inr (Option.some.inj h)
      · exact .inl h

theorem foldl_nearer_mem [DecidableEq α] {current pane : α} {center : Int × Int} {direction : Char}
    {positions : List (α × Rect)} {best : Option α × Int}
    (h : (positions.foldl (Link.nearer current center direction) best).1 = some pane) :
    best.1 = some pane ∨ pane ∈ positions.map Prod.fst := by
  induction positions generalizing best with
  | nil => exact .inl h
  | cons position positions ih =>
      rw [List.map_cons, List.mem_cons]
      rcases ih h with hbest | hlater
      · rcases nearer_mem hbest with hold | hnew
        · exact .inl hold
        · exact .inr (.inl hnew.symm)
      · exact .inr (.inr hlater)

/-- A pane in some direction is a pane of the layout. -/
theorem getPaneInDirection_mem [DecidableEq α] {root : Link α} {current pane : α} {direction : Char}
    (h : root.getPaneInDirection current direction = some pane) : pane ∈ root.collectPanes := by
  rw [Link.getPaneInDirection] at h
  dsimp only at h
  split at h
  · cases h
  · rw [← map_calculatePositions root ⟨0, 0, 100, 100⟩]
    exact (foldl_nearer_mem h).resolve_left (fun hnone => by cases hnone)

end Layouts

namespace Window

/-- What `Layout::remove_pane` promises: the pane is deleted, and only it. -/
def RemovalMeets (removePane : Link Nat → Nat → Bool × Link Nat) (root : Link Nat) (pane : Nat) :
    Prop :=
  ∀ t : Tree Nat, root = t.toLink → pane ∈ t.panes → ¬ t.IsLeaf →
    ∃ t' : Tree Nat, removePane root pane = (true, t'.toLink) ∧
      t'.panes.Perm (t.panes.erase pane)

/-- The four views agree. -/
structure Consistent (w : Window) : Prop where
  owned : w.panes.Perm w.layout.collectPanes
  nodup : w.panes.Nodup
  active : ∃ pane ∈ w.panes, w.activePane = some pane
  zoom : w.zoomed = true → w.zoomTarget = w.activePane

/-- Where the call closes a pane, the layout keeps its promise, and a pane that is made
active is one of the window. -/
def Given (removePane : Link Nat → Nat → Bool × Link Nat) (w : Window) : Call → Prop
  | .closeActive => ∀ active ∈ w.activePane, RemovalMeets removePane w.layout active
  | .setActive pane => pane ∈ w.panes
  | _ => True

/-- The call does not remove a pane that the window owns. -/
def LeavesPanes (w : Window) : Call → Prop
  | .removePane pane => pane ∉ w.panes
  | _ => True

/-! ## One call -/

/-- The layout is a tree, and so is what was saved; the panes were made. -/
structure Shaped (w : Window) : Prop where
  layout : ∃ t : Tree Nat, w.layout = t.toLink
  saved : ∀ saved ∈ w.savedLayout, ∃ t : Tree Nat, saved.snapshot = t.toLink.snapshot
  made : ∀ pane ∈ w.panes, pane < w.made

/-- Making a pane of the window active brings the last two views together. -/
theorem consistent_setActiveLocked {w : Window} (howned : w.panes.Perm w.layout.collectPanes)
    (hnodup : w.panes.Nodup) {pane : Nat} (hpane : pane ∈ w.panes) :
    (setActiveLocked (some pane) w).Consistent := by
  refine ⟨howned, hnodup, ⟨pane, hpane, rfl⟩, fun hzoomed => ?_⟩
  have hzoomed' : w.zoomed = true := hzoomed
  simp [setActiveLocked, hzoomed']

theorem Consistent.unzoom {w : Window} (h : w.Consistent) : w.unzoom.Consistent :=
  ⟨h.owned, h.nodup, h.active, fun hzoomed => Bool.noConfusion hzoomed⟩

theorem Shaped.unzoom {w : Window} (h : w.Shaped) : w.unzoom.Shaped :=
  ⟨h.layout, h.saved, h.made⟩

/-- What the window is after an operation that keeps its views together. -/
structure Kept (w : Window) : Prop where
  shaped : w.Shaped
  consistent : w.Consistent

theorem Kept.unzoomIf {w : Window} (h : w.Kept) (c : Prop) [Decidable c] :
    Kept (if c then w.unzoom else w) := by
  split
  · exact ⟨h.shaped.unzoom, h.consistent.unzoom⟩
  · exact h

theorem activePane_unzoomIf (w : Window) (c : Prop) [Decidable c] :
    (if c then w.unzoom else w).activePane = w.activePane := by
  split <;> rfl

/-- The panes are those of the tree. -/
theorem Consistent.perm_panes {w : Window} (h : w.Consistent) {t : Tree Nat}
    (ht : w.layout = t.toLink) : w.panes.Perm t.panes := by
  rw [← Tree.collectPanes_toLink, ← ht]
  exact h.owned

theorem kept_splitActive {w : Window} (h : w.Kept) (direction : SplitDirection) :
    (w.splitActive direction).2.Kept := by
  obtain ⟨active, -, hactive⟩ := h.consistent.active
  rw [splitActive, hactive]
  dsimp only
  have hkept := h.unzoomIf (w.zoomed = true)
  have hactive' := (activePane_unzoomIf w (w.zoomed = true)).trans hactive
  -- Leaving the zoom comes first.
  generalize (if w.zoomed = true then w.unzoom else w) = w' at hkept hactive' ⊢
  obtain ⟨t, ht⟩ := hkept.shaped.layout
  have hpanes := hkept.consistent.perm_panes ht
  obtain ⟨pane, hmem, hpane⟩ := hkept.consistent.active
  rw [hactive', Option.some.injEq] at hpane
  subst hpane
  obtain ⟨t', hresult, hperm, -⟩ := splitPane_toLink (hpanes.mem_iff.1 hmem) w'.made direction
  have hnew : w'.made ∉ w'.panes := by
    intro hold
    exact absurd (hkept.shaped.made w'.made hold) (by omega)
  have howned : (w'.panes ++ [w'.made]).Perm t'.toLink.collectPanes := by
    rw [Tree.collectPanes_toLink]
    exact (List.perm_append_singleton w'.made w'.panes).trans
      ((hpanes.cons w'.made).trans hperm.symm)
  rw [ht, hresult]
  refine ⟨⟨⟨t', rfl⟩, hkept.shaped.saved, fun pane hpane => ?_⟩,
    consistent_setActiveLocked howned ?_ ?_⟩
  · show pane < w'.made + 1
    rcases List.mem_append.1 hpane with hold | hlast
    · have hlt := hkept.shaped.made pane hold
      omega
    · rw [List.mem_singleton.1 hlast]
      omega
  · rw [List.nodup_append]
    refine ⟨hkept.consistent.nodup, List.nodup_singleton _, fun a ha b hb heq => ?_⟩
    rw [List.mem_singleton.1 hb] at heq
    exact hnew (heq ▸ ha)
  · exact List.mem_append_right _ (List.mem_singleton.2 rfl)

theorem not_isLeaf_of_two {t : Tree Nat} (h : 1 < t.panes.length) : ¬ t.IsLeaf := by
  cases t with
  | leaf p => simp [Tree.panes] at h
  | split => exact id

theorem kept_closeActive {removePane : Link Nat → Nat → Bool × Link Nat} {w : Window} (h : w.Kept)
    (hgiven : w.Given removePane .closeActive) : (w.closeActive removePane).2.Kept := by
  obtain ⟨active, -, hactive⟩ := h.consistent.active
  rw [closeActive, hactive]
  dsimp only
  split
  · exact h
  · next htwo =>
      have hmeets := hgiven active hactive
      have hlayout : ∀ c : Prop, [Decidable c] → (if c then w.unzoom else w).layout = w.layout := by
        intro c hc
        split <;> rfl
      have hcount : ∀ c : Prop, [Decidable c] → (if c then w.unzoom else w).panes = w.panes := by
        intro c hc
        split <;> rfl
      have hkept := h.unzoomIf (w.zoomed = true ∧ w.zoomTarget = some active)
      have hactive' := (activePane_unzoomIf w
        (w.zoomed = true ∧ w.zoomTarget = some active)).trans hactive
      rw [← hlayout (w.zoomed = true ∧ w.zoomTarget = some active)] at hmeets
      rw [← hcount (w.zoomed = true ∧ w.zoomTarget = some active)] at htwo
      generalize (if w.zoomed = true ∧ w.zoomTarget = some active then w.unzoom else w) = w'
        at hkept hactive' hmeets htwo ⊢
      obtain ⟨t, ht⟩ := hkept.shaped.layout
      have hpanes := hkept.consistent.perm_panes ht
      obtain ⟨pane, hmem, hpane⟩ := hkept.consistent.active
      rw [hactive', Option.some.injEq] at hpane
      subst hpane
      have hlength : 1 < t.panes.length := by
        rw [← hpanes.length_eq]
        omega
      obtain ⟨t', hresult, hperm⟩ := hmeets t ht (hpanes.mem_iff.1 hmem) (not_isLeaf_of_two hlength)
      have howned : (w'.panes.erase active).Perm t'.toLink.collectPanes := by
        rw [Tree.collectPanes_toLink]
        exact (hpanes.erase active).trans hperm.symm
      obtain ⟨new, hnew⟩ : ∃ new, t'.toLink.collectPanes.head? = some new := by
        cases hcollect : t'.toLink.collectPanes with
        | nil =>
            have hzero := howned.length_eq
            rw [hcollect, List.length_erase_of_mem hmem, List.length_nil] at hzero
            omega
        | cons new rest => exact ⟨new, rfl⟩
      rw [hresult]
      dsimp only
      rw [if_pos rfl, hnew]
      refine ⟨⟨⟨t', rfl⟩, hkept.shaped.saved, fun pane hpane => ?_⟩,
        consistent_setActiveLocked howned (hkept.consistent.nodup.erase active) ?_⟩
      · exact hkept.shaped.made pane (List.mem_of_mem_erase hpane)
      · exact howned.mem_iff.2 (List.mem_of_mem_head? hnew)

theorem kept_setActive {w : Window} (h : w.Kept) {pane : Nat} (hpane : pane ∈ w.panes) :
    (setActiveLocked (some pane) w).Kept :=
  ⟨⟨h.shaped.layout, h.shaped.saved, h.shaped.made⟩,
    consistent_setActiveLocked h.consistent.owned h.consistent.nodup hpane⟩

theorem kept_navigate {w : Window} (h : w.Kept) (direction : Char) :
    (w.navigate direction).2.Kept := by
  rw [navigate]
  split
  · exact h
  · split
    · exact h
    · next next hnext =>
        exact kept_setActive h (h.consistent.owned.mem_iff.2 (getPaneInDirection_mem hnext))

theorem kept_toggleZoom {w : Window} (h : w.Kept) : w.toggleZoom.2.Kept := by
  obtain ⟨active, hmem, hactive⟩ := h.consistent.active
  rw [toggleZoom, hactive]
  dsimp only
  split
  · exact ⟨h.shaped.unzoom, h.consistent.unzoom⟩
  · exact ⟨⟨h.shaped.layout, h.shaped.saved, h.shaped.made⟩, h.consistent.owned,
      h.consistent.nodup, ⟨active, hmem, rfl⟩, fun _ => rfl⟩

theorem kept_saveLayout {w : Window} (h : w.Kept) : w.saveLayout.2.Kept := by
  rw [saveLayout]
  split
  · exact h
  · dsimp only
    split
    · exact h
    · obtain ⟨t, ht⟩ := h.shaped.layout
      refine ⟨⟨h.shaped.layout, fun saved hsaved => ⟨t, ?_⟩, h.shaped.made⟩, h.consistent.owned,
        h.consistent.nodup, h.consistent.active, h.consistent.zoom⟩
      rw [Option.mem_def, Option.some.injEq] at hsaved
      rw [← hsaved, ht]

theorem kept_restoreLayout {w : Window} (h : w.Kept) : w.restoreLayout.2.Kept := by
  rw [restoreLayout]
  split
  · exact h
  · next saved hsaved =>
      split
      · exact h
      · next hcount =>
          obtain ⟨t, ht⟩ := h.shaped.saved saved hsaved
          have hleafCount : saved.snapshot.leafCount = t.panes.length := by
            rw [ht, Link.snapshot, clone_toLink, Nat.zero_add]
          obtain ⟨t', hresult, hpanes⟩ := restore_snapshot t
            (List.range' w.made saved.snapshot.leafCount) (by rw [List.length_range', hleafCount])
          have howned : (List.range' w.made saved.snapshot.leafCount).Perm
              t'.toLink.collectPanes := by
            rw [Tree.collectPanes_toLink, hpanes]
          have hactive : ∀ i < saved.snapshot.leafCount,
              (List.range' w.made saved.snapshot.leafCount)[i]? = some (w.made + i) := by
            intro i hi
            rw [List.getElem?_range' hi, Nat.one_mul]
          rw [← ht] at hresult
          dsimp only
          rw [hresult]
          dsimp only
          rw [if_pos rfl, List.length_range', hactive _ (by split <;> omega)]
          refine ⟨⟨⟨t', rfl⟩, h.shaped.saved, fun pane hpane => ?_⟩,
            consistent_setActiveLocked howned List.nodup_range' ?_⟩
          · exact (List.mem_range'_1.1 hpane).2
          · refine List.mem_range'_1.2 ⟨Nat.le_add_right _ _, ?_⟩
            split <;> omega

/-- Removing a pane of the window leaves it in the layout; removing another one does nothing. -/
theorem consistent_removePane {w : Window} (h : w.Kept) (pane : Nat) :
    (w.removePane pane).Consistent ↔ pane ∉ w.panes := by
  rw [removePane]
  have hkept := h.unzoomIf (w.zoomTarget = some pane)
  have hpanes : (if w.zoomTarget = some pane then w.unzoom else w).panes = w.panes := by
    split <;> rfl
  rw [← hpanes]
  generalize (if w.zoomTarget = some pane then w.unzoom else w) = w' at hkept
  constructor
  · intro hconsistent hmem
    have hleaf := hkept.consistent.owned.mem_iff.1 hmem
    have hleft := hconsistent.owned.mem_iff.2 hleaf
    simp at hleft
  · intro hother
    have hsame : w'.panes.filter (fun p => p ≠ pane) = w'.panes := by
      rw [List.filter_eq_self]
      intro p hp
      exact decide_eq_true fun heq => hother (heq ▸ hp)
    rw [hsame]
    exact hkept.consistent

theorem shaped_removePane {w : Window} (h : w.Shaped) (pane : Nat) :
    (w.removePane pane).Shaped := by
  rw [removePane]
  have hunzoomed : (if w.zoomTarget = some pane then w.unzoom else w).Shaped := by
    split
    · exact h.unzoom
    · exact h
  exact ⟨hunzoomed.layout, hunzoomed.saved, fun p hp =>
    hunzoomed.made p (List.mem_of_mem_filter hp)⟩

theorem kept_step {removePane : Link Nat → Nat → Bool × Link Nat} {w : Window} (h : w.Kept)
    {c : Call} (hgiven : w.Given removePane c) (hleaves : w.LeavesPanes c) :
    (w.step removePane c).Kept := by
  cases c with
  | splitActive direction => exact kept_splitActive h direction
  | closeActive => exact kept_closeActive h hgiven
  | navigate direction => exact kept_navigate h direction
  | setActive pane => exact kept_setActive h hgiven
  | toggleZoom => exact kept_toggleZoom h
  | saveLayout => exact kept_saveLayout h
  | restoreLayout => exact kept_restoreLayout h
  | removePane pane =>
      exact ⟨shaped_removePane h.shaped pane, (consistent_removePane h pane).2 hleaves⟩

theorem consistent_step_iff {removePane : Link Nat → Nat → Bool × Link Nat} {w : Window}
    (h : w.Kept) {c : Call} (hgiven : w.Given removePane c) :
    (w.step removePane c).Consistent ↔ w.LeavesPanes c := by
  constructor
  · intro hconsistent
    cases c with
    | removePane pane => exact (consistent_removePane h pane).1 hconsistent
    | splitActive direction => trivial
    | closeActive => trivial
    | navigate direction => trivial
    | setActive pane => trivial
    | toggleZoom => trivial
    | saveLayout => trivial
    | restoreLayout => trivial
  · intro hleaves
    exact (kept_step h hgiven hleaves).consistent

/-! ## Runs -/

theorem kept_initial : initial.Kept := by
  refine ⟨⟨⟨.leaf 0, rfl⟩, ?_, ?_⟩, ⟨List.Perm.refl [0], List.nodup_singleton 0, ⟨0, ?_, rfl⟩, ?_⟩⟩
  · intro saved hsaved
    cases hsaved
  · intro pane hpane
    rw [List.mem_singleton.1 hpane]
    exact Nat.lt_succ_self 0
  · exact List.mem_singleton.2 rfl
  · intro hzoomed
    cases hzoomed

/-- As long as the layout removes panes as it promises, the views agree throughout a run
exactly if `remove_pane` is never asked for a pane that the window owns. -/
theorem consistent_iff (removePane : Link Nat → Nat → Bool × Link Nat) (calls : List Call)
    (hgiven : Runs.Always (step removePane) (Given removePane) initial calls) :
    Runs.Throughout (step removePane) Consistent initial calls ↔
      Runs.Always (step removePane) LeavesPanes initial calls := by
  have hside : ∀ w c, Kept w → Consistent w → Given removePane w c → LeavesPanes w c →
      Kept (step removePane w c) := fun w c h _ hc hleaves => kept_step h hc hleaves
  have hstep : ∀ w c, Kept w → Consistent w → Given removePane w c →
      (Consistent (step removePane w c) ↔ LeavesPanes w c) :=
    fun w c h _ hc => consistent_step_iff h hc
  exact Runs.throughout_iff_always_of_given hside hstep kept_initial kept_initial.consistent hgiven

/-- `Layout::remove_pane` keeps its promise where it removes cleanly. -/
theorem removalMeets_of_removedCleanly {t : Tree Nat} {pane : Nat} (h : RemovedCleanly t pane) :
    RemovalMeets Link.removePane t.toLink pane := by
  intro t' ht _ _
  obtain ⟨s, left, -, hpanes, hrun⟩ := h
  rw [← Tree.toLink_injective ht, ← hpanes]
  exact ⟨left, hrun, List.Perm.refl _⟩

theorem removedCleanly_two :
    RemovedCleanly (Tree.split .horizontal (1 / 2) (.leaf 0) (.leaf 1)) 1 :=
  ⟨.leaf 0, .leaf 0, .atRight .horizontal (1 / 2) (.leaf 0), by decide, by decide +kernel⟩

theorem consistent_iff_two :
    Runs.Throughout (step Link.removePane) Consistent initial
        [.splitActive .horizontal, .toggleZoom, .closeActive, .saveLayout, .restoreLayout,
          .setActive 2] ↔
      Runs.Always (step Link.removePane) LeavesPanes initial
        [.splitActive .horizontal, .toggleZoom, .closeActive, .saveLayout, .restoreLayout,
          .setActive 2] := by
  refine consistent_iff Link.removePane _ ⟨trivial, trivial, ?_, trivial, trivial, ?_, trivial⟩
  · intro active hactive
    cases hactive
    exact removalMeets_of_removedCleanly removedCleanly_two
  · show 2 ∈ _
    decide +kernel

/-- A pane that is removed stays a leaf of the layout. -/
theorem removed_not_consistent :
    Runs.Always (step Link.removePane) (Given Link.removePane) initial
        [.splitActive .horizontal, .removePane 1] ∧
      ¬ Runs.Throughout (step Link.removePane) Consistent initial
        [.splitActive .horizontal, .removePane 1] := by
  refine ⟨⟨trivial, trivial, trivial⟩, fun h => ?_⟩
  have howned := h.2.2.owned.mem_iff (a := 1)
  revert howned
  decide +kernel

end Window

end Nazg.Tui

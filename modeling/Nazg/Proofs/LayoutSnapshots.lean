import Nazg.Proofs.WindowPanes

/-!
# Saving and restoring a layout

A snapshot is the layout with numbers in the place of its panes, and restoring it puts panes
in the place of the numbers. What `snapshot` makes of a layout tree has both children at every
split and numbers its leaves from left to right (`Snapshot.Ordered`), and every such snapshot
is restored with the panes in their order.

A restore that returns `false` leaves the layout as it was, on all ways out but the first: an
empty snapshot empties the layout before the panes are looked at.
-/

namespace Nazg.Tui

/-! ## Shapes -/

/-- The shape of a snapshot: its numbers do not matter. -/
def SnapLink.shape : SnapLink → SnapLink
  | null => null
  | leaf _ => leaf 0
  | split d ratio l r => split d ratio l.shape r.shape

/-- The numbers from left to right. -/
def SnapLink.leaves : SnapLink → List Nat
  | null => []
  | leaf i => [i]
  | split _ _ l r => l.leaves ++ r.leaves

/-- No child is missing. -/
def SnapLink.Whole : SnapLink → Prop
  | null => False
  | leaf _ => True
  | split _ _ l r => l.Whole ∧ r.Whole

theorem SnapLink.Whole.ne_null {s : SnapLink} (h : s.Whole) : s ≠ .null := by
  rintro rfl
  exact h

def Link.shape {α : Type*} : Link α → SnapLink
  | null => .null
  | node (some _) _ _ _ _ => .leaf 0
  | node none d l r ratio => .split d ratio l.shape r.shape

/-- A snapshot as `snapshot` makes it. -/
def Snapshot.Ordered (s : Snapshot) : Prop :=
  s.root = .null ∨ s.root.Whole ∧ s.root.leaves = List.range s.leafCount

section

variable {α β : Type*}

/-! ## Building -/

/-- Built from panes for all of its numbers, a whole snapshot is a tree of these panes. -/
theorem build_of_whole {s : SnapLink} (hwhole : s.Whole) {leaves : List α}
    (h : ∀ i ∈ s.leaves, i < leaves.length) :
    ∃ t : Tree α, s.build leaves = t.toLink ∧ t.toLink.shape = s.shape ∧
      t.panes.map some = s.leaves.map (leaves[·]?) := by
  induction s with
  | null => exact hwhole.elim
  | leaf i =>
      have hi : i < leaves.length := h i (List.mem_singleton.2 rfl)
      refine ⟨.leaf leaves[i], ?_, rfl, ?_⟩
      · rw [SnapLink.build, List.getElem?_eq_getElem hi]
        rfl
      · simp [Tree.panes, SnapLink.leaves, hi]
  | split d ratio l r ihl ihr =>
      rw [SnapLink.leaves] at h
      obtain ⟨t, hbuild, hshape, hpanes⟩ :=
        ihl hwhole.1 fun i hi => h i (List.mem_append_left _ hi)
      obtain ⟨u, hbuild', hshape', hpanes'⟩ :=
        ihr hwhole.2 fun i hi => h i (List.mem_append_right _ hi)
      refine ⟨.split d ratio t u, ?_, ?_, ?_⟩
      · rw [SnapLink.build, hbuild, hbuild', Tree.toLink]
        cases ht : t.toLink with
        | null => exact absurd ht t.toLink_ne_null
        | node =>
            cases hu : u.toLink with
            | null => exact absurd hu u.toLink_ne_null
            | node => rfl
      · rw [Tree.toLink, Link.shape, hshape, hshape', SnapLink.shape]
      · rw [Tree.panes, SnapLink.leaves, List.map_append, List.map_append, hpanes, hpanes']

/-- Nothing is built if a child is missing or a number has no pane. -/
theorem whole_of_build {s : SnapLink} {leaves : List α} (h : s.build leaves ≠ .null) :
    s.Whole ∧ ∀ i ∈ s.leaves, i < leaves.length := by
  induction s with
  | null => exact absurd rfl h
  | leaf i =>
      refine ⟨trivial, fun j hj => ?_⟩
      obtain rfl := List.mem_singleton.1 hj
      rw [SnapLink.build] at h
      by_contra hlength
      rw [List.getElem?_eq_none (by omega)] at h
      exact h rfl
  | split d ratio l r ihl ihr =>
      rw [SnapLink.build] at h
      have hl : l.build leaves ≠ .null := by
        intro hnull
        rw [hnull] at h
        exact h rfl
      have hr : r.build leaves ≠ .null := by
        intro hnull
        rw [hnull] at h
        cases hleft : l.build leaves with
        | null => exact hl hleft
        | node =>
            rw [hleft] at h
            exact h rfl
      refine ⟨⟨(ihl hl).1, (ihr hr).1⟩, fun i hi => ?_⟩
      rw [SnapLink.leaves, List.mem_append] at hi
      rcases hi with hi | hi
      · exact (ihl hl).2 i hi
      · exact (ihr hr).2 i hi

/-- The snapshot of a layout tree: the same shape, numbered from left to right. -/
theorem clone_ordered (t : Tree α) (counter : Nat) :
    (t.toLink.clone counter).1.Whole ∧
      (t.toLink.clone counter).1.leaves = List.range' counter t.panes.length ∧
      (t.toLink.clone counter).1.shape = t.toLink.shape := by
  induction t generalizing counter with
  | leaf p => exact ⟨trivial, rfl, rfl⟩
  | split d ratio l r ihl ihr =>
      obtain ⟨hwhole, hleaves, hshape⟩ := ihl counter
      obtain ⟨hwhole', hleaves', hshape'⟩ := ihr (counter + l.panes.length)
      rw [Tree.toLink, Link.clone]
      dsimp only
      rw [clone_toLink]
      refine ⟨⟨hwhole, hwhole'⟩, ?_, ?_⟩
      · rw [SnapLink.leaves, hleaves, hleaves', Tree.panes, List.length_append,
          List.range'_append_1]
      · rw [SnapLink.shape, hshape, hshape', Link.shape]

theorem ordered_snapshot (t : Tree α) : t.toLink.snapshot.Ordered := by
  obtain ⟨hwhole, hleaves, -⟩ := clone_ordered t 0
  refine .inr ⟨hwhole, ?_⟩
  rw [Link.snapshot, hleaves, clone_toLink, Nat.zero_add, List.range_eq_range']

theorem length_panes_of_shape {t u : Tree α} (h : t.toLink.shape = u.toLink.shape) :
    t.panes.length = u.panes.length := by
  induction t generalizing u with
  | leaf p =>
      cases u with
      | leaf q => rfl
      | split => cases h
  | split d ratio l r ihl ihr =>
      cases u with
      | leaf q => cases h
      | split d' ratio' l' r' =>
          injection h with _ _ hl hr
          rw [Tree.panes, Tree.panes, List.length_append, List.length_append, ihl hl, ihr hr]

/-- Shape and panes make a tree. -/
theorem eq_of_shape {t u : Tree α} (hshape : t.toLink.shape = u.toLink.shape)
    (hpanes : t.panes = u.panes) : t = u := by
  induction t generalizing u with
  | leaf p =>
      cases u with
      | leaf q =>
          injection hpanes with hp
          rw [hp]
      | split => cases hshape
  | split d ratio l r ihl ihr =>
      cases u with
      | leaf q => cases hshape
      | split d' ratio' l' r' =>
          injection hshape with hd hratio hl hr
          obtain ⟨hlpanes, hrpanes⟩ := List.append_inj hpanes (length_panes_of_shape hl)
          rw [hd, hratio, ihl hl hlpanes, ihr hr hrpanes]

/-! ## Restoring -/

theorem restore_of_ne_null {s : Snapshot} (hroot : s.root ≠ .null) (old : Link α)
    (leaves : List α) : old.restoreFromSnapshot s leaves =
      if s.leafCount ≠ leaves.length then (false, old)
      else
        match s.root.build leaves with
        | .null => (false, old)
        | newRoot => (true, newRoot) := by
  rw [Link.restoreFromSnapshot]
  cases h : s.root with
  | null => exact absurd h hroot
  | leaf i => rfl
  | split d ratio l r => rfl

theorem restore_of_null {s : Snapshot} (hroot : s.root = .null) (old : Link α)
    (leaves : List α) : old.restoreFromSnapshot s leaves = (leaves.isEmpty, .null) := by
  rw [Link.restoreFromSnapshot, hroot]

theorem restore_of_build {s : Snapshot} (hroot : s.root ≠ .null) {leaves : List α}
    (hcount : s.leafCount = leaves.length) {t : Tree α} (h : s.root.build leaves = t.toLink)
    (old : Link α) : old.restoreFromSnapshot s leaves = (true, t.toLink) := by
  rw [restore_of_ne_null hroot, if_neg (not_not_intro hcount), h]
  cases ht : t.toLink with
  | null => exact absurd ht t.toLink_ne_null
  | node => rfl

/-- What a restore that succeeds had to work with. -/
theorem build_of_restore {s : Snapshot} (hroot : s.root ≠ .null) {old t : Link α}
    {leaves : List α} (h : old.restoreFromSnapshot s leaves = (true, t)) :
    s.leafCount = leaves.length ∧ s.root.build leaves = t ∧ t ≠ .null := by
  rw [restore_of_ne_null hroot] at h
  split at h
  · cases h
  · next hcount =>
      cases hbuild : s.root.build leaves with
      | null =>
          rw [hbuild] at h
          cases h
      | node =>
          rw [hbuild] at h
          cases h
          exact ⟨not_not.1 hcount, rfl, nofun⟩

/-- A whole snapshot with its leaves numbered from left to right takes the panes in order. -/
theorem restore_of_ordered {s : Snapshot} (h : s.Ordered) (old : Link α) {leaves : List α}
    (hlength : leaves.length = s.root.leaves.length) :
    ∃ t, old.restoreFromSnapshot s leaves = (true, t) ∧ t.shape = s.root.shape ∧
      t.collectPanes = leaves := by
  rcases h with hnull | ⟨hwhole, hleaves⟩
  · have hempty : leaves = [] := by
      rw [hnull] at hlength
      exact List.length_eq_zero_iff.1 hlength
    subst hempty
    exact ⟨.null, restore_of_null hnull old [], by rw [hnull]; rfl, rfl⟩
  · rw [hleaves, List.length_range] at hlength
    have hbelow : ∀ i ∈ s.root.leaves, i < leaves.length := by
      rw [hleaves, ← hlength]
      exact fun i hi => List.mem_range.1 hi
    obtain ⟨t, hbuild, hshape, hpanes⟩ := build_of_whole hwhole hbelow
    refine ⟨t.toLink, restore_of_build hwhole.ne_null hlength.symm hbuild old, hshape, ?_⟩
    rw [hleaves, ← hlength] at hpanes
    rw [Tree.collectPanes_toLink]
    refine List.map_injective_iff.2 (Option.some_injective α) (hpanes.trans ?_)
    refine List.ext_getElem (by simp) fun i hi hi' => ?_
    simp at hi hi'
    simp [hi]

/-- A layout tree comes back from its own snapshot. -/
theorem restore_own_snapshot (t : Tree α) (old : Link α) :
    old.restoreFromSnapshot t.toLink.snapshot t.toLink.collectPanes = (true, t.toLink) := by
  obtain ⟨hwhole, hleaves, hshape⟩ := clone_ordered t 0
  have hlength : t.toLink.collectPanes.length = t.toLink.snapshot.root.leaves.length := by
    rw [Tree.collectPanes_toLink, Link.snapshot, hleaves, List.length_range']
  obtain ⟨u, hrestore, hushape, hupanes⟩ := restore_of_ordered (ordered_snapshot t) old hlength
  obtain ⟨-, hbuild, hne⟩ := build_of_restore hwhole.ne_null hrestore
  obtain ⟨hwhole', hbound⟩ := whole_of_build (hbuild ▸ hne)
  obtain ⟨v, hv, -, -⟩ := build_of_whole hwhole' hbound
  rw [hbuild] at hv
  subst hv
  rw [Tree.collectPanes_toLink, Tree.collectPanes_toLink] at hupanes
  rw [hrestore, eq_of_shape (hushape.trans hshape) hupanes]

end

/-! ## When a restore keeps its promises -/

/-- Restored with as many panes as it has leaves, the snapshot's shape comes back with these
panes in order. -/
def Snapshot.RestoresInOrder (s : Snapshot) (α : Type) : Prop :=
  ∀ (old : Link α) (leaves : List α), leaves.length = s.root.leaves.length →
    ∃ t, old.restoreFromSnapshot s leaves = (true, t) ∧ t.shape = s.root.shape ∧
      t.collectPanes = leaves

/-- If this restore returns `false` the layout is unchanged. -/
def Link.FailsUnchanged {α : Type*} (old : Link α) (s : Snapshot) (leaves : List α) : Prop :=
  (old.restoreFromSnapshot s leaves).1 = false → (old.restoreFromSnapshot s leaves).2 = old

theorem ordered_of_restoresInOrder {s : Snapshot} (h : s.RestoresInOrder Nat) : s.Ordered := by
  by_cases hroot : s.root = .null
  · exact .inl hroot
  refine .inr ?_
  obtain ⟨t, hrestore, -, hpanes⟩ := h .null (List.range s.root.leaves.length) (by simp)
  obtain ⟨hcount, hbuild, hne⟩ := build_of_restore hroot hrestore
  obtain ⟨hwhole, hbound⟩ := whole_of_build (hbuild ▸ hne)
  obtain ⟨u, hbuild', -, hpanes'⟩ := build_of_whole hwhole hbound
  rw [hbuild] at hbuild'
  subst hbuild'
  rw [List.length_range] at hcount
  refine ⟨hwhole, ?_⟩
  rw [Tree.collectPanes_toLink] at hpanes
  rw [hpanes] at hpanes'
  have hself : s.root.leaves.map ((List.range s.root.leaves.length)[·]?) =
      s.root.leaves.map some := by
    refine List.map_congr_left fun i hi => ?_
    have hi' := hbound i hi
    rw [List.length_range] at hi'
    simp [hi']
  rw [hcount]
  exact (List.map_injective_iff.2 (Option.some_injective Nat) (hpanes'.trans hself)).symm

theorem failsUnchanged_iff {α : Type*} (old : Link α) (s : Snapshot) (leaves : List α) :
    old.FailsUnchanged s leaves ↔ ¬ (s.root = .null ∧ leaves ≠ [] ∧ old ≠ .null) := by
  rw [Link.FailsUnchanged]
  by_cases hroot : s.root = .null
  · rw [restore_of_null hroot]
    cases leaves with
    | nil => simp
    | cons p leaves => simp [hroot, eq_comm]
  · rw [restore_of_ne_null hroot]
    refine ⟨fun _ h => hroot h.1, fun _ => ?_⟩
    split
    · exact fun _ => rfl
    · cases s.root.build leaves with
      | null => exact fun _ => rfl
      | node => exact nofun

/-- Every layout tree comes back from its own snapshot; a snapshot takes its panes in order
exactly if it is one that a layout tree can have; and a failed restore leaves the layout as it
was exactly if it is not one of an empty snapshot with panes. -/
theorem restore_snapshot_iff {α : Type} (t : Tree α) (old : Link α) (s : Snapshot)
    (leaves : List α) :
    (t.toLink.snapshot.Ordered ∧
      old.restoreFromSnapshot t.toLink.snapshot t.toLink.collectPanes = (true, t.toLink)) ∧
    ((∀ β : Type, s.RestoresInOrder β) ↔ s.Ordered) ∧
    (old.FailsUnchanged s leaves ↔ ¬ (s.root = .null ∧ leaves ≠ [] ∧ old ≠ .null)) := by
  refine ⟨⟨ordered_snapshot t, restore_own_snapshot t old⟩,
    ⟨fun h => ordered_of_restoresInOrder (h Nat), fun h β => ?_⟩, failsUnchanged_iff old s leaves⟩
  exact fun old leaves hlength => restore_of_ordered h old hlength

/-- A layout with a pane loses it when an empty snapshot is restored with a pane. -/
theorem emptied_not_failsUnchanged :
    ¬ (Link.leaf 0).FailsUnchanged ⟨.null, 0⟩ [1] := by
  intro h
  have hempty := h rfl
  cases hempty

end Nazg.Tui

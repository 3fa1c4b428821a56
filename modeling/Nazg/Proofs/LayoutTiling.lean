import Mathlib.Data.List.Pairwise
import Nazg.Proofs.LayoutRemove

/-!
# The panes tile the area

A split with the ratio of `split_pane` cuts its area in two halves that meet: the first gets
half of the cells, rounded down, and the second the rest. So the panes tile the area at every
depth, also where a half has no cells at all.
-/

namespace Nazg.Tui

/-! ## Halves of an area -/

/-- An area of the sizes up to which the product of a size with a `float` is exact. -/
structure Area extends Rect where
  width_nonneg : 0 ≤ width
  width_lt : width < 2 ^ 24
  height_nonneg : 0 ≤ height
  height_lt : height < 2 ^ 24

namespace Rect

/-- The left or upper half. -/
def first (direction : SplitDirection) (area : Rect) : Rect :=
  match direction with
  | .horizontal => { area with width := area.width / 2 }
  | .vertical => { area with height := area.height / 2 }

/-- The right or lower half. -/
def second (direction : SplitDirection) (area : Rect) : Rect :=
  match direction with
  | .horizontal =>
      { area with x := area.x + area.width / 2, width := area.width - area.width / 2 }
  | .vertical =>
      { area with y := area.y + area.height / 2, height := area.height - area.height / 2 }

/-- No size is negative. -/
def Proper (area : Rect) : Prop := 0 ≤ area.width ∧ 0 ≤ area.height

/-- The rectangle lies in the area, with its edges. -/
def Within (rect area : Rect) : Prop :=
  area.x ≤ rect.x ∧ rect.x + rect.width ≤ area.x + area.width ∧
    area.y ≤ rect.y ∧ rect.y + rect.height ≤ area.y + area.height

/-- No cell lies in both. -/
def Disjoint (a b : Rect) : Prop := ∀ x y, a.contains x y = true → b.contains x y = false

theorem contains_iff {rect : Rect} {x y : Int} : rect.contains x y = true ↔
    rect.x ≤ x ∧ x < rect.x + rect.width ∧ rect.y ≤ y ∧ y < rect.y + rect.height := by
  simp [contains, and_assoc]

theorem Disjoint.symm {a b : Rect} (h : a.Disjoint b) : b.Disjoint a := by
  intro x y hb
  rw [Bool.eq_false_iff]
  intro ha
  rw [h x y ha] at hb
  cases hb

theorem Within.refl (area : Rect) : area.Within area := ⟨le_refl _, le_refl _, le_refl _, le_refl _⟩

theorem Within.trans {a b c : Rect} (h : a.Within b) (h' : b.Within c) : a.Within c := by
  simp only [Within] at h h' ⊢
  omega

theorem Within.contains {rect area : Rect} (h : rect.Within area) {x y : Int}
    (hxy : rect.contains x y = true) : area.contains x y = true := by
  simp only [Within] at h
  rw [contains_iff] at hxy ⊢
  omega

theorem proper_first (direction : SplitDirection) {area : Rect} (h : area.Proper) :
    (area.first direction).Proper := by
  simp only [Proper] at h ⊢
  cases direction with
  | horizontal => simp only [first]; omega
  | vertical => simp only [first]; omega

theorem proper_second (direction : SplitDirection) {area : Rect} (h : area.Proper) :
    (area.second direction).Proper := by
  simp only [Proper] at h ⊢
  cases direction with
  | horizontal => simp only [second]; omega
  | vertical => simp only [second]; omega

theorem first_within (direction : SplitDirection) {area : Rect} (h : area.Proper) :
    (area.first direction).Within area := by
  simp only [Proper] at h
  cases direction with
  | horizontal => simp only [first, Within]; omega
  | vertical => simp only [first, Within]; omega

theorem second_within (direction : SplitDirection) {area : Rect} (h : area.Proper) :
    (area.second direction).Within area := by
  simp only [Proper] at h
  cases direction with
  | horizontal => simp only [second, Within]; omega
  | vertical => simp only [second, Within]; omega

theorem first_disjoint_second (direction : SplitDirection) (area : Rect) :
    (area.first direction).Disjoint (area.second direction) := by
  intro x y h
  rw [contains_iff] at h
  rw [Bool.eq_false_iff, ne_eq, contains_iff]
  cases direction with
  | horizontal => simp only [first, second] at h ⊢; omega
  | vertical => simp only [first, second] at h ⊢; omega

theorem contains_halves (direction : SplitDirection) {area : Rect} {x y : Int}
    (h : area.contains x y = true) :
    (area.first direction).contains x y = true ∨ (area.second direction).contains x y = true := by
  rw [contains_iff] at h
  rw [contains_iff, contains_iff]
  cases direction with
  | horizontal => simp only [first, second]; omega
  | vertical => simp only [first, second]; omega

end Rect

/-! ## Tilings -/

/-- The rectangles lie in the area, no two share a cell, and every cell lies in one. -/
structure Tiles (rects : List Rect) (area : Rect) : Prop where
  within : ∀ rect ∈ rects, rect.Within area
  disjoint : rects.Pairwise Rect.Disjoint
  covers : ∀ x y, area.contains x y = true → ∃ rect ∈ rects, rect.contains x y = true

theorem tiles_singleton (area : Rect) : Tiles [area] area where
  within rect h := by
    rw [List.mem_singleton.1 h]
    exact Rect.Within.refl area
  disjoint := List.pairwise_singleton _ _
  covers _ _ h := ⟨area, List.mem_singleton.2 rfl, h⟩

/-- Tilings of the two halves tile the whole. -/
theorem Tiles.append {direction : SplitDirection} {area : Rect} (harea : area.Proper)
    {rects rects' : List Rect} (h : Tiles rects (area.first direction))
    (h' : Tiles rects' (area.second direction)) : Tiles (rects ++ rects') area where
  within rect hrect := by
    rcases List.mem_append.1 hrect with hrect | hrect
    · exact (h.within rect hrect).trans (Rect.first_within direction harea)
    · exact (h'.within rect hrect).trans (Rect.second_within direction harea)
  disjoint := by
    refine List.pairwise_append.2 ⟨h.disjoint, h'.disjoint, fun a ha b hb x y hxy => ?_⟩
    have hfirst := (h.within a ha).contains hxy
    have hsecond := Rect.first_disjoint_second direction area x y hfirst
    rw [Bool.eq_false_iff] at hsecond ⊢
    exact fun hb' => hsecond ((h'.within b hb).contains hb')
  covers x y hxy := by
    rcases Rect.contains_halves direction hxy with hfirst | hsecond
    · obtain ⟨rect, hrect, hcell⟩ := h.covers x y hfirst
      exact ⟨rect, List.mem_append_left _ hrect, hcell⟩
    · obtain ⟨rect, hrect, hcell⟩ := h'.covers x y hsecond
      exact ⟨rect, List.mem_append_right _ hrect, hcell⟩

/-! ## The positions of a layout tree -/

theorem scaled_half {size : Int} (h : 0 ≤ size) : scaled size (1 / 2) = size / 2 := by
  have hnum : (1 / 2 : ℚ).num = 1 := by decide +kernel
  have hden : (1 / 2 : ℚ).den = 2 := by decide +kernel
  rw [scaled, hnum, hden, Int.mul_one, Int.tdiv_eq_ediv_of_nonneg h]
  rfl

variable {α : Type*}

theorem calculatePositions_split (direction : SplitDirection) (l r : Tree α) {area : Rect}
    (h : area.Proper) :
    (Tree.split direction (1 / 2) l r).toLink.calculatePositions area =
      l.toLink.calculatePositions (area.first direction) ++
        r.toLink.calculatePositions (area.second direction) := by
  cases direction with
  | horizontal =>
      rw [Tree.toLink, Link.calculatePositions, scaled_half h.1]
      simp only [Rect.first, Rect.second, add_sub_cancel_left]
  | vertical =>
      rw [Tree.toLink, Link.calculatePositions, scaled_half h.2]
      simp only [Rect.first, Rect.second, add_sub_cancel_left]

theorem tiles_calculatePositions {t : Tree α} (ht : t.Halved) {area : Rect} (h : area.Proper) :
    (t.toLink.calculatePositions area).map Prod.fst = t.panes ∧
      Tiles ((t.toLink.calculatePositions area).map Prod.snd) area := by
  induction t generalizing area with
  | leaf p => exact ⟨rfl, tiles_singleton area⟩
  | split d ratio l r ihl ihr =>
      obtain ⟨rfl, hl, hr⟩ := ht
      obtain ⟨hpanes, htiles⟩ := ihl hl (Rect.proper_first d h)
      obtain ⟨hpanes', htiles'⟩ := ihr hr (Rect.proper_second d h)
      rw [calculatePositions_split d l r h, List.map_append, List.map_append, hpanes, hpanes']
      exact ⟨rfl, htiles.append h htiles'⟩

/-- In a tiled area the pane at a cell is the one whose rectangle has the cell. -/
theorem getPaneAtPosition_of_tiles {root : Link α} {area : Rect}
    (h : Tiles ((root.calculatePositions area).map Prod.snd) area) {x y : Int}
    (hxy : area.contains x y = true) :
    ∃ position ∈ root.calculatePositions area, position.2.contains x y = true ∧
      root.getPaneAtPosition x y area = some position.1 ∧
      ∀ other ∈ root.calculatePositions area, other.2.contains x y = true → other = position := by
  obtain ⟨rect, hrect, hcell⟩ := h.covers x y hxy
  obtain ⟨position, hposition, rfl⟩ := List.mem_map.1 hrect
  have honly : ∀ other ∈ root.calculatePositions area, other.2.contains x y = true →
      other = position := by
    intro other hother hcell'
    by_contra hne
    have hsymm : Std.Symm fun a b : α × Rect => a.2.Disjoint b.2 := ⟨fun _ _ hab => hab.symm⟩
    have hdisjoint := (List.pairwise_map.1 h.disjoint).forall hother hposition hne
    rw [hdisjoint x y hcell'] at hcell
    cases hcell
  refine ⟨position, hposition, hcell, ?_, honly⟩
  rw [Link.getPaneAtPosition]
  cases hfind : (root.calculatePositions area).find? fun p => p.2.contains x y with
  | none => exact absurd hcell (by simpa using List.find?_eq_none.1 hfind position hposition)
  | some found =>
      have hfound := List.find?_some hfind
      rw [Option.map_some, honly found (List.mem_of_find?_eq_some hfind) hfound]

theorem getPaneAtPosition_outside {root : Link α} {area : Rect}
    (h : Tiles ((root.calculatePositions area).map Prod.snd) area) {x y : Int}
    (hxy : area.contains x y = false) : root.getPaneAtPosition x y area = none := by
  have hnone : (root.calculatePositions area).find? (fun p => p.2.contains x y) = none := by
    refine List.find?_eq_none.2 fun position hposition hcell => ?_
    have harea := (h.within _ (List.mem_map_of_mem hposition)).contains hcell
    rw [hxy] at harea
    cases harea
  rw [Link.getPaneAtPosition, hnone]
  rfl

/-- The positions of a layout tree are those of its leaves from left to right and tile the
area, and every cell of the area belongs to exactly one of them. -/
theorem positions_tile {t : Tree α} (ht : t.Halved) (area : Area) :
    let positions := t.toLink.calculatePositions area.toRect
    positions.map Prod.fst = t.panes ∧ Tiles (positions.map Prod.snd) area.toRect ∧
      (∀ x y, area.contains x y = true → ∃ position ∈ positions,
        position.2.contains x y = true ∧
        t.toLink.getPaneAtPosition x y area.toRect = some position.1 ∧
        ∀ other ∈ positions, other.2.contains x y = true → other = position) ∧
      ∀ x y, area.contains x y = false → t.toLink.getPaneAtPosition x y area.toRect = none := by
  have hproper : area.toRect.Proper := ⟨area.width_nonneg, area.height_nonneg⟩
  obtain ⟨hpanes, htiles⟩ := tiles_calculatePositions ht hproper
  exact ⟨hpanes, htiles, fun x y hxy => getPaneAtPosition_of_tiles htiles hxy,
    fun x y hxy => getPaneAtPosition_outside htiles hxy⟩

/-- Two panes above each other beside a third one. -/
def stacked : Tree Nat :=
  .split .horizontal (1 / 2) (.split .vertical (1 / 2) (.leaf 0) (.leaf 1)) (.leaf 2)

/-- The area has one line: the upper pane has none, and the lower one the first cell. -/
theorem positions_tile_line :
    let area : Area := ⟨⟨0, 0, 3, 1⟩, by decide, by decide, by decide, by decide⟩
    let positions := stacked.toLink.calculatePositions area.toRect
    positions.map Prod.fst = [0, 1, 2] ∧ Tiles (positions.map Prod.snd) area.toRect ∧
      (∀ x y, area.contains x y = true → ∃ position ∈ positions,
        position.2.contains x y = true ∧
        stacked.toLink.getPaneAtPosition x y area.toRect = some position.1 ∧
        ∀ other ∈ positions, other.2.contains x y = true → other = position) ∧
      ∀ x y, area.contains x y = false →
        stacked.toLink.getPaneAtPosition x y area.toRect = none :=
  @positions_tile Nat stacked ⟨rfl, ⟨rfl, trivial, trivial⟩, trivial⟩
    ⟨⟨0, 0, 3, 1⟩, by decide, by decide, by decide, by decide⟩

end Nazg.Tui

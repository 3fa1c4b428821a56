import Nazg.Proofs.LayoutRemove
import Nazg.Tui.Render

/-!
# Where the panes of a window fit

A size of three cells or more is divided into two sizes and a line that add up to it. A size of
two has room for one cell beside the line, but both children get one. So a layout fits if no
split gets exactly two cells; how many it gets depends on the splits of the same direction above
it, each of which takes one cell for its line and halves the rest.
-/

namespace Nazg.Tui

open Lib

/-! ## Dividing a size -/

theorem clampRatio_half : clampRatio (1 / 2) = 1 / 2 := by decide +kernel

theorem divideSize_small {n : Int} (h : n = 1 ∨ n = 2) : divideSize n (1 / 2) = ⟨n - 1, 1, 1⟩ := by
  have hscale : scaleInt 1 (1 / 2) = 0 := scaleInt_half (by decide) (by decide)
  have husable : max 1 (n - if n > 1 then 1 else 0) = 1 := by
    rcases h with rfl | rfl
    · rfl
    · rfl
  simp only [divideSize]
  rw [husable, hscale]
  rcases h with rfl | rfl
  · rfl
  · rfl

/-- The cells that a side of a split gets: half of what the line leaves. A single cell cannot be
shared. -/
def share (side : Link.Side) (n : Int) : Int :=
  if n < 2 then n
  else
    match side with
    | .left => scaleInt (n - 1) (1 / 2)
    | .right => n - 1 - scaleInt (n - 1) (1 / 2)

theorem divideSize_large {n : Int} (h : 3 ≤ n) :
    divideSize n (1 / 2) = ⟨1, share .left n, share .right n⟩ ∧
      1 ≤ share .left n ∧ 1 ≤ share .right n ∧ share .left n + 1 + share .right n = n := by
  obtain ⟨hlow, hhigh⟩ := @scaleInt_half_bounds (n - 1) (by omega)
  have hlarge : ¬ n < 2 := by omega
  simp only [share, if_neg hlarge]
  refine ⟨?_, hlow, by omega, by omega⟩
  have hseparator : (if n > 1 then (1 : Int) else 0) = 1 := if_pos (by omega)
  have husable : max 1 (n - 1) = n - 1 := max_eq_right (by omega)
  have hfirst : max 1 (scaleInt (n - 1) (1 / 2)) = scaleInt (n - 1) (1 / 2) := max_eq_right hlow
  have hsecond : max 1 (n - 1 - scaleInt (n - 1) (1 / 2)) = n - 1 - scaleInt (n - 1) (1 / 2) :=
    max_eq_right (by omega)
  simp only [divideSize, hseparator, husable, hfirst, hsecond]
  rw [if_neg (by omega)]

theorem share_le_one {side : Link.Side} {n : Int} (h : n ≤ 1) : share side n = n := by
  rw [share.eq_def, if_pos (by omega)]

/-! ## Cells at a split -/

/-- The cells left of a size after these turns. -/
def cells (n : Int) (turns : List Link.Side) : Int := turns.foldl (fun n side => share side n) n

theorem cells_le_one {n : Int} (h : n ≤ 1) (turns : List Link.Side) : cells n turns = n := by
  induction turns with
  | nil => rfl
  | cons side turns ih =>
      rw [cells, List.foldl_cons, share_le_one h]
      exact ih

/-- The turns as the digits of a number, the first one the lowest. -/
def number : List Link.Side → Int
  | [] => 0
  | .left :: turns => 2 * number turns
  | .right :: turns => 1 + 2 * number turns

theorem number_bounds (turns : List Link.Side) :
    0 ≤ number turns ∧ number turns < 2 ^ turns.length := by
  induction turns with
  | nil => simp [number]
  | cons side turns ih =>
      rw [List.length_cons, pow_succ]
      cases side with
      | left => simp only [number]; omega
      | right => simp only [number]; omega

/-- In a window of ordinary size the cells after some turns are a quotient. -/
theorem cells_eq_two_iff {n : Int} (hpos : 0 ≤ n) (hlt : n < 2 ^ 24) (turns : List Link.Side) :
    cells n turns = 2 ↔ (n + 1 + number turns) / 2 ^ turns.length = 3 := by
  induction turns generalizing n with
  | nil =>
      simp only [cells, List.foldl_nil, number, List.length_nil, pow_zero, Int.ediv_one]
      omega
  | cons side turns ih =>
      have hbounds := number_bounds (side :: turns)
      by_cases hsmall : n < 2
      · -- at most two, and the turns add less than what they divide by
        rw [cells_le_one (by omega)]
        refine iff_of_false (by omega) fun hthree => ?_
        have hle := Int.mul_ediv_self_le (x := n + 1 + number (side :: turns))
          (k := 2 ^ (side :: turns).length) (by positivity)
        rw [hthree] at hle
        have htwo : (2 : Int) ≤ 2 ^ (side :: turns).length := by
          rw [List.length_cons, pow_succ]
          have hone : (1 : Int) ≤ 2 ^ turns.length := one_le_pow₀ (by decide)
          omega
        omega
      · rw [cells, List.foldl_cons]
        cases side with
        | left =>
            have hshare : share .left n = (n - 1) / 2 := by
              rw [share.eq_def, if_neg hsmall]
              exact scaleInt_half (by omega) (by omega)
            refine (ih (n := share .left n) (by omega) (by omega)).trans ?_
            rw [hshare, number, List.length_cons, pow_succ', ← Int.ediv_ediv_of_nonneg (by decide)]
            rw [show (n + 1 + 2 * number turns) / 2 = (n - 1) / 2 + 1 + number turns by omega]
        | right =>
            have hshare : share .right n = n - 1 - (n - 1) / 2 := by
              rw [share.eq_def, if_neg hsmall]
              exact congrArg (n - 1 - ·) (scaleInt_half (by omega) (by omega))
            refine (ih (n := share .right n) (by omega) (by omega)).trans ?_
            rw [hshare, number, List.length_cons, pow_succ', ← Int.ediv_ediv_of_nonneg (by decide)]
            rw [show (n + 1 + (1 + 2 * number turns)) / 2 =
              n - 1 - (n - 1) / 2 + 1 + number turns by omega]

/-! ## Layouts -/

/-- The sizes of a place in the two directions. -/
abbrev Room := SplitDirection → Int

def Room.of (width height : Int) : Room
  | .horizontal => width
  | .vertical => height

/-- At every split with two cells or more both children get a cell, and with the line between
them they get what there is; a pane has no more than its place. -/
def Element.Fits {α : Type*} : Element α → Room → Prop
  | filler, _ => True
  | pane _ width height, room => width ≤ room .horizontal ∧ height ≤ room .vertical
  | box d division a b, room =>
      (2 ≤ room d → 1 ≤ division.first ∧ 1 ≤ division.second ∧
        division.first + division.separator + division.second = room d) ∧
      a.Fits (Function.update room d division.first) ∧
      b.Fits (Function.update room d division.second)

/-- The splits of a tree, with the turns that lead to them. -/
def Tree.splits {α : Type*} : Tree α → List (SplitDirection × List (SplitDirection × Link.Side))
  | leaf _ => []
  | split d _ l r =>
      (d, []) :: (l.splits.map (fun s => (s.1, (d, .left) :: s.2)) ++
        r.splits.map (fun s => (s.1, (d, .right) :: s.2)))

/-- The turns at splits of one direction. -/
def along (d : SplitDirection) (turns : List (SplitDirection × Link.Side)) : List Link.Side :=
  (turns.filter fun turn => turn.1 = d).map Prod.snd

/-- The cells that a split gets along its direction. -/
def splitCells (room : Room) (s : SplitDirection × List (SplitDirection × Link.Side)) : Int :=
  cells (room s.1) (along s.1 s.2)

theorem splitCells_cons (room : Room) (d e : SplitDirection) (side : Link.Side)
    (turns : List (SplitDirection × Link.Side)) :
    splitCells room (e, (d, side) :: turns) =
      splitCells (Function.update room d (share side (room d))) (e, turns) := by
  by_cases he : d = e
  · subst he
    simp [splitCells, along, cells]
  · have hne : e ≠ d := fun h => he h.symm
    simp [splitCells, along, he, hne]

variable {α : Type*}

theorem isNull_toLink (t : Tree α) : t.toLink.isNull = false := by
  cases t <;> rfl

theorem renderNode_split (d : SplitDirection) (l r : Tree α) {room : Room} (h : ∀ e, 1 ≤ room e) :
    (Tree.split d (1 / 2) l r).toLink.renderNode (room .horizontal) (room .vertical) =
      let division := divideSize (room d) (1 / 2)
      let left : Room := Function.update room d division.first
      let right : Room := Function.update room d division.second
      .box d division (l.toLink.renderNode (left .horizontal) (left .vertical))
        (r.toLink.renderNode (right .horizontal) (right .vertical)) := by
  have hwidth : max 1 (room .horizontal) = room .horizontal := max_eq_right (h .horizontal)
  have hheight : max 1 (room .vertical) = room .vertical := max_eq_right (h .vertical)
  cases d with
  | horizontal =>
      rw [Tree.toLink, Link.renderNode, isNull_toLink, isNull_toLink, hwidth, hheight,
        clampRatio_half]
      rfl
  | vertical =>
      rw [Tree.toLink, Link.renderNode, isNull_toLink, isNull_toLink, hwidth, hheight,
        clampRatio_half]
      rfl

/-- Where there are not just two cells, a division gives the shares. -/
theorem divideSize_shares {n : Int} (h : 1 ≤ n) (hne : n ≠ 2) :
    (divideSize n (1 / 2)).first = share .left n ∧ 1 ≤ share .left n ∧
      (divideSize n (1 / 2)).second = share .right n ∧ 1 ≤ share .right n ∧
      (2 ≤ n → share .left n + (divideSize n (1 / 2)).separator + share .right n = n) := by
  by_cases hone : n = 1
  · subst hone
    rw [divideSize_small (.inl rfl), share_le_one (le_refl 1), share_le_one (le_refl 1)]
    exact ⟨rfl, le_refl 1, rfl, le_refl 1, fun h => absurd h (by decide)⟩
  · obtain ⟨hdivision, hleft, hright, hsum⟩ := @divideSize_large n (by omega)
    rw [hdivision]
    exact ⟨rfl, hleft, rfl, hright, fun _ => hsum⟩

theorem one_le_update {room : Room} (h : ∀ e, 1 ≤ room e) (d : SplitDirection) {n : Int}
    (hn : 1 ≤ n) (e : SplitDirection) : 1 ≤ Function.update room d n e := by
  rw [Function.update_apply]
  split
  · exact hn
  · exact h e

theorem fits_renderNode_iff {t : Tree α} (ht : t.Halved) {room : Room} (h : ∀ e, 1 ≤ room e) :
    (t.toLink.renderNode (room .horizontal) (room .vertical)).Fits room ↔
      ∀ s ∈ t.splits, splitCells room s ≠ 2 := by
  induction t generalizing room with
  | leaf p =>
      refine iff_of_true ⟨?_, ?_⟩ fun s hs => by cases hs
      · exact le_of_eq (max_eq_right (h .horizontal))
      · exact le_of_eq (max_eq_right (h .vertical))
  | split d ratio l r ihl ihr =>
      obtain ⟨rfl, hl, hr⟩ := ht
      rw [renderNode_split d l r h]
      dsimp only
      rw [Element.Fits, Tree.splits, List.forall_mem_cons, List.forall_mem_append]
      have hhead : splitCells room (d, []) = room d := rfl
      rw [hhead]
      by_cases htwo : room d = 2
      · refine iff_of_false (fun hfits => ?_) fun hcells => hcells.1 htwo
        have hsum := (hfits.1 (by omega)).2.2
        rw [htwo, divideSize_small (.inr rfl)] at hsum
        exact absurd hsum (by decide)
      · obtain ⟨hfirst, hleft, hsecond, hright, hsum⟩ := divideSize_shares (h d) htwo
        rw [hfirst, hsecond, ihl hl (one_le_update h d hleft), ihr hr (one_le_update h d hright)]
        simp only [List.forall_mem_map, splitCells_cons]
        constructor
        · rintro ⟨-, hcells⟩
          exact ⟨htwo, hcells⟩
        · rintro ⟨-, hcells⟩
          exact ⟨fun hge => ⟨hleft, hright, hsum hge⟩, hcells⟩

/-- A layout tree fits in a window exactly if no split gets two cells along its direction. In a
window of ordinary size that is, with the turns at the splits of this direction above it read as
a number: if its size and one and this number, divided by two for every turn, do not make three. -/
theorem renderNode_fits_iff {t : Tree α} (ht : t.Halved) {width height : Int} (hwidth : 2 ≤ width)
    (hheight : 2 ≤ height) :
    ((t.toLink.renderNode width height).Fits (.of width height) ↔
      ∀ s ∈ t.splits, splitCells (.of width height) s ≠ 2) ∧
    (width < 2 ^ 24 → height < 2 ^ 24 →
      ((t.toLink.renderNode width height).Fits (.of width height) ↔
        ∀ s ∈ t.splits, (Room.of width height s.1 + 1 + number (along s.1 s.2)) /
          2 ^ (along s.1 s.2).length ≠ 3)) := by
  have hone : ∀ e, 1 ≤ Room.of width height e := by
    intro e
    cases e with
    | horizontal => exact le_trans (by decide) hwidth
    | vertical => exact le_trans (by decide) hheight
  have hiff := fits_renderNode_iff ht hone
  refine ⟨hiff, fun hwidth' hheight' => hiff.trans (forall₂_congr fun s _ => not_congr ?_)⟩
  refine cells_eq_two_iff (le_trans (by decide) (hone s.1)) ?_ _
  cases s.1 with
  | horizontal => exact hwidth'
  | vertical => exact hheight'

/-- Two panes beside each other. -/
def beside : Tree Nat := .split .horizontal (1 / 2) (.leaf 0) (.leaf 1)

theorem renderNode_fits_iff_beside :
    ((beside.toLink.renderNode 80 24).Fits (.of 80 24) ↔
      ∀ s ∈ beside.splits, splitCells (.of 80 24) s ≠ 2) ∧
    ((80 : Int) < 2 ^ 24 → (24 : Int) < 2 ^ 24 →
      ((beside.toLink.renderNode 80 24).Fits (.of 80 24) ↔
        ∀ s ∈ beside.splits, (Room.of 80 24 s.1 + 1 + number (along s.1 s.2)) /
          2 ^ (along s.1 s.2).length ≠ 3)) :=
  @renderNode_fits_iff Nat beside ⟨rfl, trivial, trivial⟩ 80 24 (by decide) (by decide)

/-- In a window of two columns they get a column each, and the line a third one. -/
theorem beside_not_fits : ¬ (beside.toLink.renderNode 2 2).Fits (.of 2 2) := by
  intro h
  have hsum := (h.1 (by decide)).2.2
  rw [show (Room.of 2 2 .horizontal) = 2 from rfl] at hsum
  revert hsum
  decide +kernel

end Nazg.Tui

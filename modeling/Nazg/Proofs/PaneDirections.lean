import Mathlib.Algebra.Order.Group.Abs
import Mathlib.Algebra.Order.Group.Int
import Nazg.Proofs.LayoutTiling
import Nazg.Proofs.WindowPanes

/-!
# Panes that are not found beside another

`get_pane_in_direction` compares the centres of the panes in an area of 100 by 100 cells. A
split of at least two cells puts every pane of its second half ahead of every pane of its first
half. A split of one cell gives its first half nothing, and then all the centres coincide.

How many cells a split has depends on the splits of its direction above it. What decides is the
first of them at which the pane lies on the side in question: above that one all turns went the
other way, and the pane lies at the edge of the area if nothing is left to split there.
-/

namespace Nazg.Tui

/-! ## One axis -/

namespace Rect

/-- Where the area begins along the axis of a split. -/
def lo (axis : SplitDirection) (area : Rect) : Int :=
  match axis with
  | .horizontal => area.x
  | .vertical => area.y

def extent (axis : SplitDirection) (area : Rect) : Int :=
  match axis with
  | .horizontal => area.width
  | .vertical => area.height

/-- The centre that `get_pane_in_direction` computes. -/
def center (axis : SplitDirection) (area : Rect) : Int :=
  area.lo axis + (area.extent axis).tdiv 2

variable {area : Rect}

theorem extent_nonneg (axis : SplitDirection) (h : area.Proper) : 0 ≤ area.extent axis := by
  cases axis with
  | horizontal => exact h.1
  | vertical => exact h.2

theorem center_eq (axis : SplitDirection) (h : area.Proper) :
    area.center axis = area.lo axis + area.extent axis / 2 := by
  rw [center, Int.tdiv_eq_ediv_of_nonneg (extent_nonneg axis h)]

@[simp] theorem lo_first (axis direction : SplitDirection) (area : Rect) :
    (area.first direction).lo axis = area.lo axis := by
  cases direction <;> cases axis <;> rfl

@[simp] theorem lo_second_self (axis : SplitDirection) (area : Rect) :
    (area.second axis).lo axis = area.lo axis + area.extent axis / 2 := by
  cases axis <;> rfl

@[simp] theorem extent_first_self (axis : SplitDirection) (area : Rect) :
    (area.first axis).extent axis = area.extent axis / 2 := by
  cases axis <;> rfl

@[simp] theorem extent_second_self (axis : SplitDirection) (area : Rect) :
    (area.second axis).extent axis = area.extent axis - area.extent axis / 2 := by
  cases axis <;> rfl

theorem extent_first_of_ne {axis direction : SplitDirection} (h : direction ≠ axis)
    (area : Rect) : (area.first direction).extent axis = area.extent axis := by
  cases direction <;> cases axis <;> first | rfl | exact absurd rfl h

theorem lo_second_of_ne {axis direction : SplitDirection} (h : direction ≠ axis)
    (area : Rect) : (area.second direction).lo axis = area.lo axis := by
  cases direction <;> cases axis <;> first | rfl | exact absurd rfl h

theorem extent_second_of_ne {axis direction : SplitDirection} (h : direction ≠ axis)
    (area : Rect) : (area.second direction).extent axis = area.extent axis := by
  cases direction <;> cases axis <;> first | rfl | exact absurd rfl h

end Rect

section Trees

variable {α : Type*}

theorem mem_panes_of_position {t : Tree α} {area rect : Rect} {p : α}
    (h : (p, rect) ∈ t.toLink.calculatePositions area) : p ∈ t.panes := by
  rw [← Tree.collectPanes_toLink, ← map_calculatePositions t.toLink area]
  exact List.mem_map_of_mem h

theorem panes_ne_nil (t : Tree α) : t.panes ≠ [] := by
  induction t with
  | leaf p => exact List.cons_ne_nil _ _
  | split d ratio l r ihl ihr => exact List.append_ne_nil_of_left_ne_nil ihl _

theorem exists_position (t : Tree α) (area : Rect) :
    ∃ p rect, (p, rect) ∈ t.toLink.calculatePositions area := by
  have hne : t.toLink.calculatePositions area ≠ [] := by
    intro hnil
    refine panes_ne_nil t ?_
    rw [← Tree.collectPanes_toLink, ← map_calculatePositions t.toLink area, hnil, List.map_nil]
  obtain ⟨⟨p, rect⟩, hposition⟩ := List.exists_mem_of_ne_nil _ hne
  exact ⟨p, rect, hposition⟩

/-- The centres lie in the cells of the area, or at its beginning if it has none. -/
theorem center_bounds {t : Tree α} (ht : t.Halved) (axis : SplitDirection) {area : Rect}
    (h : area.Proper) {p : α} {rect : Rect}
    (hposition : (p, rect) ∈ t.toLink.calculatePositions area) :
    area.lo axis ≤ rect.center axis ∧
      rect.center axis ≤ area.lo axis + max (area.extent axis - 1) 0 := by
  induction t generalizing area with
  | leaf p =>
      obtain ⟨-, rfl⟩ := Prod.mk.inj (List.mem_singleton.1 hposition)
      have hextent := Rect.extent_nonneg axis h
      rw [Rect.center_eq axis h]
      omega
  | split d ratio l r ihl ihr =>
      obtain ⟨rfl, hl, hr⟩ := ht
      have hextent := Rect.extent_nonneg axis h
      rw [calculatePositions_split d l r h, List.mem_append] at hposition
      rcases hposition with hposition | hposition
      · have hbounds := ihl hl (Rect.proper_first d h) hposition
        rw [Rect.lo_first] at hbounds
        by_cases hd : d = axis
        · subst hd
          rw [Rect.extent_first_self] at hbounds
          omega
        · rw [Rect.extent_first_of_ne hd] at hbounds
          exact hbounds
      · have hbounds := ihr hr (Rect.proper_second d h) hposition
        by_cases hd : d = axis
        · subst hd
          rw [Rect.lo_second_self, Rect.extent_second_self] at hbounds
          omega
        · rw [Rect.lo_second_of_ne hd, Rect.extent_second_of_ne hd] at hbounds
          exact hbounds

/-! ## The sides on which a pane lies -/

/-- The sides of a pane at the splits of one direction, from the root down. -/
def Link.sides [DecidableEq α] (axis : SplitDirection) (pane : α) : Link α → List Side
  | null => []
  | node (some _) _ _ _ _ => []
  | node none d l r _ =>
      if pane ∈ l.collectPanes then
        if d = axis then .left :: l.sides axis pane else l.sides axis pane
      else if pane ∈ r.collectPanes then
        if d = axis then .right :: r.sides axis pane else r.sides axis pane
      else []

/-- The cells that a side of a split gets. -/
def halve : Link.Side → Int → Int
  | .left, e => e / 2
  | .right, e => e - e / 2

/-- At one of these turns the side is taken and there are two cells or more. -/
def Roomy (near : Link.Side) : List Link.Side → Int → Prop
  | [], _ => False
  | s :: ss, e => s = near ∧ 2 ≤ e ∨ Roomy near ss (halve s e)

/-- The second centre lies ahead of the first, seen from this side. -/
def Ahead (near : Link.Side) (center other : Int) : Prop :=
  match near with
  | .left => center < other
  | .right => other < center

section Sides

variable [DecidableEq α] {l r : Tree α} {d axis : SplitDirection} {ratio : ℚ} {p : α}

theorem sides_of_left (h : p ∈ l.panes) :
    (Tree.split d ratio l r).toLink.sides axis p =
      if d = axis then .left :: l.toLink.sides axis p else l.toLink.sides axis p := by
  rw [Tree.toLink, Link.sides, if_pos (by rwa [Tree.collectPanes_toLink])]

theorem sides_of_right (hl : p ∉ l.panes) (h : p ∈ r.panes) :
    (Tree.split d ratio l r).toLink.sides axis p =
      if d = axis then .right :: r.toLink.sides axis p else r.toLink.sides axis p := by
  rw [Tree.toLink, Link.sides, if_neg (by rwa [Tree.collectPanes_toLink]),
    if_pos (by rwa [Tree.collectPanes_toLink])]

end Sides

/-- A pane that lies on this side of a split with two cells or more has a centre ahead. -/
theorem exists_ahead [DecidableEq α] {t : Tree α} (ht : t.Halved) (hnodup : t.panes.Nodup)
    {axis : SplitDirection} {near : Link.Side} {p : α} {area : Rect} (h : area.Proper)
    (hroomy : Roomy near (t.toLink.sides axis p) (area.extent axis)) {rect : Rect}
    (hrect : (p, rect) ∈ t.toLink.calculatePositions area) :
    ∃ q other, (q, other) ∈ t.toLink.calculatePositions area ∧
      Ahead near (rect.center axis) (other.center axis) := by
  induction t generalizing area with
  | leaf q => exact hroomy.elim
  | split d ratio l r ihl ihr =>
      obtain ⟨rfl, hl, hr⟩ := ht
      rw [Tree.panes, List.nodup_append] at hnodup
      obtain ⟨hnodupl, hnodupr, hapart⟩ := hnodup
      have hfirst := Rect.proper_first d h
      have hsecond := Rect.proper_second d h
      rw [calculatePositions_split d l r h] at hrect ⊢
      rcases List.mem_append.1 hrect with hrect | hrect
      · have hp : p ∈ l.panes := mem_panes_of_position hrect
        rw [sides_of_left hp] at hroomy
        have hwithin : Roomy near (l.toLink.sides axis p) ((area.first d).extent axis) →
            ∃ q other, (q, other) ∈ l.toLink.calculatePositions (area.first d) ++
                r.toLink.calculatePositions (area.second d) ∧
              Ahead near (rect.center axis) (other.center axis) := by
          intro hroomy
          obtain ⟨q, other, hposition, hahead⟩ := ihl hl hnodupl hfirst hroomy hrect
          exact ⟨q, other, List.mem_append_left _ hposition, hahead⟩
        by_cases hd : d = axis
        · subst hd
          rw [if_pos rfl] at hroomy
          rcases hroomy with ⟨rfl, htwo⟩ | hroomy
          · obtain ⟨q, other, hposition⟩ := exists_position r (area.second d)
            refine ⟨q, other, List.mem_append_right _ hposition, ?_⟩
            have hbounds := center_bounds hl d hfirst hrect
            have hbounds' := center_bounds hr d hsecond hposition
            rw [Rect.lo_first, Rect.extent_first_self] at hbounds
            rw [Rect.lo_second_self] at hbounds'
            show rect.center d < other.center d
            omega
          · refine hwithin ?_
            rw [Rect.extent_first_self]
            exact hroomy
        · rw [if_neg hd] at hroomy
          rw [Rect.extent_first_of_ne hd] at hwithin
          exact hwithin hroomy
      · have hp : p ∈ r.panes := mem_panes_of_position hrect
        have hnot : p ∉ l.panes := fun hp' => hapart p hp' p hp rfl
        rw [sides_of_right hnot hp] at hroomy
        have hwithin : Roomy near (r.toLink.sides axis p) ((area.second d).extent axis) →
            ∃ q other, (q, other) ∈ l.toLink.calculatePositions (area.first d) ++
                r.toLink.calculatePositions (area.second d) ∧
              Ahead near (rect.center axis) (other.center axis) := by
          intro hroomy
          obtain ⟨q, other, hposition, hahead⟩ := ihr hr hnodupr hsecond hroomy hrect
          exact ⟨q, other, List.mem_append_right _ hposition, hahead⟩
        by_cases hd : d = axis
        · subst hd
          rw [if_pos rfl] at hroomy
          rcases hroomy with ⟨rfl, htwo⟩ | hroomy
          · obtain ⟨q, other, hposition⟩ := exists_position l (area.first d)
            refine ⟨q, other, List.mem_append_left _ hposition, ?_⟩
            have hbounds := center_bounds hr d hsecond hrect
            have hbounds' := center_bounds hl d hfirst hposition
            rw [Rect.lo_second_self] at hbounds
            rw [Rect.lo_first, Rect.extent_first_self] at hbounds'
            show other.center d < rect.center d
            omega
          · refine hwithin ?_
            rw [Rect.extent_second_self]
            exact hroomy
        · rw [if_neg hd] at hroomy
          rw [Rect.extent_second_of_ne hd] at hwithin
          exact hwithin hroomy

/-- The centre at the edge of an area that nothing in it is ahead of. -/
def edge (near : Link.Side) (axis : SplitDirection) (area : Rect) : Int :=
  match near with
  | .left => area.lo axis + area.extent axis - 1
  | .right => area.lo axis

/-- A pane that lies on this side of splits, but of none with two cells, is at the edge. -/
theorem center_eq_edge [DecidableEq α] {t : Tree α} (ht : t.Halved) (hnodup : t.panes.Nodup)
    {axis : SplitDirection} {near : Link.Side} {p : α} {area : Rect} (h : area.Proper)
    (hcells : near = .left → 1 ≤ area.extent axis) (hside : near ∈ t.toLink.sides axis p)
    (hroomy : ¬ Roomy near (t.toLink.sides axis p) (area.extent axis)) {rect : Rect}
    (hrect : (p, rect) ∈ t.toLink.calculatePositions area) :
    rect.center axis = edge near axis area := by
  induction t generalizing area with
  | leaf q => cases hside
  | split d ratio l r ihl ihr =>
      obtain ⟨rfl, hl, hr⟩ := ht
      rw [Tree.panes, List.nodup_append] at hnodup
      obtain ⟨hnodupl, hnodupr, hapart⟩ := hnodup
      have hfirst := Rect.proper_first d h
      have hsecond := Rect.proper_second d h
      have hextent := Rect.extent_nonneg axis h
      rw [calculatePositions_split d l r h] at hrect
      rcases List.mem_append.1 hrect with hrect | hrect
      · have hp : p ∈ l.panes := mem_panes_of_position hrect
        rw [sides_of_left hp] at hside hroomy
        by_cases hd : d = axis
        · subst hd
          rw [if_pos rfl] at hside hroomy
          have hbounds := center_bounds hl d hfirst hrect
          rw [Rect.lo_first, Rect.extent_first_self] at hbounds
          cases near with
          | left =>
              -- one cell, of which the first half has none
              have hone : ¬ 2 ≤ area.extent d := fun htwo => hroomy (.inl ⟨rfl, htwo⟩)
              have hcells := hcells rfl
              simp only [edge]
              omega
          | right =>
              have hbelow := ihl hl hnodupl hfirst (fun heq => absurd heq (by decide))
                ((List.mem_cons.1 hside).resolve_left (by decide)) (fun hroomy' => hroomy (.inr (by
                  rwa [Rect.extent_first_self] at hroomy'))) hrect
              rw [hbelow, edge, edge, Rect.lo_first]
        · rw [if_neg hd] at hside hroomy
          rw [← Rect.extent_first_of_ne hd area] at hroomy hcells
          rw [ihl hl hnodupl hfirst hcells hside hroomy hrect]
          cases near with
          | left => simp only [edge, Rect.lo_first, Rect.extent_first_of_ne hd]
          | right => simp only [edge, Rect.lo_first]
      · have hp : p ∈ r.panes := mem_panes_of_position hrect
        have hnot : p ∉ l.panes := fun hp' => hapart p hp' p hp rfl
        rw [sides_of_right hnot hp] at hside hroomy
        by_cases hd : d = axis
        · subst hd
          rw [if_pos rfl] at hside hroomy
          have hbounds := center_bounds hr d hsecond hrect
          rw [Rect.lo_second_self, Rect.extent_second_self] at hbounds
          cases near with
          | left =>
              have hcells := hcells rfl
              have hbelow := ihr hr hnodupr hsecond
                (fun _ => by rw [Rect.extent_second_self]; omega)
                ((List.mem_cons.1 hside).resolve_left (by decide)) (fun hroomy' => hroomy (.inr (by
                  rwa [Rect.extent_second_self] at hroomy'))) hrect
              rw [hbelow, edge, edge, Rect.lo_second_self, Rect.extent_second_self]
              omega
          | right =>
              have hone : ¬ 2 ≤ area.extent d := fun htwo => hroomy (.inl ⟨rfl, htwo⟩)
              simp only [edge]
              omega
        · rw [if_neg hd] at hside hroomy
          rw [← Rect.extent_second_of_ne hd area] at hroomy hcells
          rw [ihr hr hnodupr hsecond hcells hside hroomy hrect]
          cases near with
          | left => simp only [edge, Rect.lo_second_of_ne hd, Rect.extent_second_of_ne hd]
          | right => simp only [edge, Rect.lo_second_of_ne hd]

end Trees

/-! ## How many turns have room -/

theorem not_roomy {near : Link.Side} {ss : List Link.Side} {e : Int} (h : e < 2) :
    ¬ Roomy near ss e := by
  induction ss generalizing e with
  | nil => exact id
  | cons s ss ih =>
      rintro (⟨-, htwo⟩ | hroomy)
      · omega
      · refine ih ?_ hroomy
        cases s with
        | left => simp only [halve]; omega
        | right => simp only [halve]; omega

/-- The turn that leads away from this side. -/
def opposite : Link.Side → Link.Side
  | .left => .right
  | .right => .left

/-- With room for exactly this many turns away from the side, it has to be taken among them. -/
theorem roomy_iff {near : Link.Side} {n : Nat} {e : Int}
    (hroom : ∀ i < n, 2 ≤ (halve (opposite near))^[i] e) (hend : (halve (opposite near))^[n] e < 2)
    {ss : List Link.Side} : Roomy near ss e ↔ near ∈ ss.take n := by
  induction n generalizing e ss with
  | zero =>
      have hlt : e < 2 := hend
      simp [not_roomy hlt]
  | succ n ih =>
      cases ss with
      | nil => simp [Roomy]
      | cons s ss =>
          have htwo : 2 ≤ e := hroom 0 (Nat.succ_pos n)
          rw [List.take_succ_cons, List.mem_cons, Roomy]
          by_cases hs : s = near
          · simp [hs, htwo]
          · have hopposite : s = opposite near := by
              cases s <;> cases near <;> first | rfl | exact absurd rfl hs
            have hrest := @ih (halve s e) (fun i hi => by
              rw [hopposite]
              exact hroom (i + 1) (Nat.succ_lt_succ hi)) (by
              rw [hopposite]
              exact hend) ss
            have hs' : near ≠ s := fun heq => hs heq.symm
            simp [hs, hs', hrest]

/-! ## The four directions -/

inductive Way where
  | left
  | right
  | up
  | down
  deriving DecidableEq

namespace Way

/-- The key that `navigate` is given. -/
def key : Way → Char
  | left => 'h'
  | right => 'l'
  | up => 'k'
  | down => 'j'

/-- The splits that lie in the way. -/
def axis : Way → SplitDirection
  | left | right => .horizontal
  | up | down => .vertical

/-- The side of a split from which the way leads over it. -/
def near : Way → Link.Side
  | left | up => .right
  | right | down => .left

/-- How many splits above one another get two cells or more of a hundred, if all turns lead
away from the near side. -/
def reach : Way → Nat
  | left | up => 6
  | right | down => 7

theorem roomy_iff_take (way : Way) {ss : List Link.Side} :
    Roomy way.near ss 100 ↔ way.near ∈ ss.take way.reach := by
  cases way with
  | left => exact roomy_iff (by decide) (by decide)
  | right => exact roomy_iff (by decide) (by decide)
  | up => exact roomy_iff (by decide) (by decide)
  | down => exact roomy_iff (by decide) (by decide)

/-- A pane ahead has a distance. -/
theorem distance_of_ahead {way : Way} {rect other : Rect}
    (h : Ahead way.near (rect.center way.axis) (other.center way.axis)) :
    ∃ d ≤ |other.center .horizontal - rect.center .horizontal| +
        |other.center .vertical - rect.center .vertical|,
      Link.distance way.key (other.center .horizontal - rect.center .horizontal)
        (other.center .vertical - rect.center .vertical) = some d := by
  cases way with
  | left =>
      have hlt : other.center .horizontal - rect.center .horizontal < 0 := sub_neg.2 h
      exact ⟨_, by rw [abs_of_neg hlt], if_pos hlt⟩
  | right =>
      have hlt : 0 < other.center .horizontal - rect.center .horizontal := sub_pos.2 h
      exact ⟨_, by rw [abs_of_pos hlt], if_pos hlt⟩
  | up =>
      have hlt : other.center .vertical - rect.center .vertical < 0 := sub_neg.2 h
      exact ⟨_, by rw [abs_of_neg hlt, add_comm], if_pos hlt⟩
  | down =>
      have hlt : 0 < other.center .vertical - rect.center .vertical := sub_pos.2 h
      exact ⟨_, by rw [abs_of_pos hlt, add_comm], if_pos hlt⟩

theorem distance_of_not_ahead {way : Way} {rect other : Rect}
    (h : ¬ Ahead way.near (rect.center way.axis) (other.center way.axis)) :
    Link.distance way.key (other.center .horizontal - rect.center .horizontal)
      (other.center .vertical - rect.center .vertical) = none := by
  cases way with
  | left => exact if_neg fun hlt => h (sub_neg.1 hlt)
  | right => exact if_neg fun hlt => h (sub_pos.1 hlt)
  | up => exact if_neg fun hlt => h (sub_neg.1 hlt)
  | down => exact if_neg fun hlt => h (sub_pos.1 hlt)

end Way

/-! ## What is found -/

section Found

variable {α : Type*} [DecidableEq α]

theorem foldl_nearer_of_isSome {current : α} {center : Int × Int} {direction : Char}
    {positions : List (α × Rect)} {best : Option α × Int} (h : best.1.isSome = true) :
    (positions.foldl (Link.nearer current center direction) best).1.isSome = true := by
  induction positions generalizing best with
  | nil => exact h
  | cons position positions ih =>
      refine ih ?_
      rw [Link.nearer]
      split
      · exact h
      · dsimp only
        split
        · exact h
        · split
          · rfl
          · exact h

/-- A pane is found if there is another one with a distance below the first one to beat. -/
theorem isSome_foldl_nearer {current : α} {center : Int × Int} {direction : Char}
    {positions : List (α × Rect)} {limit : Int} :
    (positions.foldl (Link.nearer current center direction) (none, limit)).1.isSome = true ↔
      ∃ q other, (q, other) ∈ positions ∧ q ≠ current ∧ ∃ d < limit,
        Link.distance direction (other.center .horizontal - center.1)
          (other.center .vertical - center.2) = some d := by
  induction positions with
  | nil => simp
  | cons position positions ih =>
      obtain ⟨q, other⟩ := position
      rw [List.foldl_cons]
      by_cases hfound : q ≠ current ∧ ∃ d < limit, Link.distance direction
          (other.center .horizontal - center.1) (other.center .vertical - center.2) = some d
      · obtain ⟨hq, d, hlt, hd⟩ := hfound
        have hstep : Link.nearer current center direction (none, limit) (q, other) =
            (some q, d) := by
          rw [Link.nearer, if_neg hq]
          dsimp only
          rw [show Link.distance direction (other.x + other.width.tdiv 2 - center.1)
            (other.y + other.height.tdiv 2 - center.2) = some d from hd]
          exact if_pos hlt
        rw [hstep]
        exact iff_of_true (foldl_nearer_of_isSome rfl)
          ⟨q, other, List.mem_cons_self, hq, d, hlt, hd⟩
      · have hstep : Link.nearer current center direction (none, limit) (q, other) =
            (none, limit) := by
          rw [Link.nearer]
          split
          · rfl
          · next hq =>
              dsimp only
              split
              · rfl
              · next d hd => exact if_neg fun hlt => hfound ⟨hq, d, hlt, hd⟩
        rw [hstep, ih]
        constructor
        · rintro ⟨r, rect, hmem, hrest⟩
          exact ⟨r, rect, List.mem_cons_of_mem _ hmem, hrest⟩
        · rintro ⟨r, rect, hmem, hrest⟩
          rcases List.mem_cons.1 hmem with heq | hmem
          · cases heq
            exact absurd hrest hfound
          · exact ⟨r, rect, hmem, hrest⟩

/-- The area that `get_pane_in_direction` makes up. -/
def dummyArea : Rect := ⟨0, 0, 100, 100⟩

theorem proper_dummyArea : dummyArea.Proper := ⟨by decide, by decide⟩

theorem lo_dummyArea (axis : SplitDirection) : dummyArea.lo axis = 0 := by
  cases axis <;> rfl

theorem extent_dummyArea (axis : SplitDirection) : dummyArea.extent axis = 100 := by
  cases axis <;> rfl

/-- A pane is found exactly if one has its centre ahead. -/
theorem isSome_getPaneInDirection {t : Tree α} (ht : t.Halved) (hnodup : t.panes.Nodup) {p : α}
    (way : Way) {rect : Rect} (hrect : (p, rect) ∈ t.toLink.calculatePositions dummyArea) :
    (t.toLink.getPaneInDirection p way.key).isSome = true ↔
      ∃ q other, (q, other) ∈ t.toLink.calculatePositions dummyArea ∧
        Ahead way.near (rect.center way.axis) (other.center way.axis) := by
  have honly : ∀ other, (p, other) ∈ t.toLink.calculatePositions dummyArea → other = rect := by
    intro other hother
    rw [← Tree.collectPanes_toLink, ← map_calculatePositions t.toLink dummyArea] at hnodup
    exact (Prod.mk.inj (List.inj_on_of_nodup_map hnodup hother hrect rfl)).2
  rw [Link.getPaneInDirection]
  dsimp only
  cases hfind : (t.toLink.calculatePositions ⟨0, 0, 100, 100⟩).find? fun q => q.1 = p with
  | none =>
      have hnot := List.find?_eq_none.1 hfind _ hrect
      simp at hnot
  | some found =>
      obtain ⟨q, area⟩ := found
      obtain rfl : q = p := by simpa using List.find?_some hfind
      obtain rfl := honly area (List.mem_of_find?_eq_some hfind)
      refine isSome_foldl_nearer.trans ?_
      constructor
      · rintro ⟨q', other, hmem, -, d, -, hd⟩
        refine ⟨q', other, hmem, ?_⟩
        by_contra hnot
        have hnone := Way.distance_of_not_ahead hnot
        exact absurd (hd.symm.trans hnone) (Option.some_ne_none _)
      · rintro ⟨q', other, hmem, hahead⟩
        obtain ⟨d, hle, hd⟩ := Way.distance_of_ahead hahead
        have hnear : ∀ axis, |other.center axis - area.center axis| ≤ 99 := by
          intro axis
          have hbounds := center_bounds ht axis proper_dummyArea hrect
          have hbounds' := center_bounds ht axis proper_dummyArea hmem
          rw [lo_dummyArea, extent_dummyArea] at hbounds hbounds'
          exact abs_le.2 ⟨by omega, by omega⟩
        refine ⟨q', other, hmem, ?_, d, ?_, hd⟩
        · rintro rfl
          rw [honly other hmem] at hahead
          cases way <;> exact absurd hahead (lt_irrefl _)
        · have hx := hnear .horizontal
          have hy := hnear .vertical
          omega

/-- A layout whose panes came in one by one. -/
inductive Link.Built : Link α → Prop where
  | root (pane : α) : Built (.leaf pane)
  | split {root : Link α} (h : Built root) {target newPane : α} {direction : SplitDirection}
      (htarget : target ∈ root.collectPanes) (hnew : newPane ∉ root.collectPanes) :
      Built (root.splitPane target newPane direction).2

theorem Link.Built.tree {root : Link α} (h : root.Built) :
    ∃ t : Tree α, root = t.toLink ∧ t.Halved ∧ t.panes.Nodup := by
  induction h with
  | root pane => exact ⟨.leaf pane, rfl, trivial, List.nodup_singleton pane⟩
  | @split root _ target newPane direction htarget hnew ih =>
      obtain ⟨t, rfl, ht, hnodup⟩ := ih
      rw [Tree.collectPanes_toLink] at htarget hnew
      obtain ⟨t', hsplit, hperm, hhalved⟩ := splitPane_toLink htarget newPane direction
      refine ⟨t', by rw [hsplit], hhalved ht, ?_⟩
      exact hperm.nodup_iff.2 (List.nodup_cons.2 ⟨hnew, hnodup⟩)

theorem mem_panes_of_side {t : Tree α} {axis : SplitDirection} {p : α} {s : Link.Side}
    (h : s ∈ t.toLink.sides axis p) : p ∈ t.panes := by
  cases t with
  | leaf q => cases h
  | split d ratio l r =>
      rw [Tree.toLink, Link.sides, Tree.collectPanes_toLink, Tree.collectPanes_toLink] at h
      rw [Tree.panes, List.mem_append]
      split at h
      · next hl => exact .inl hl
      · split at h
        · next hr => exact .inr hr
        · cases h

/-- A pane with others on one side finds one there exactly if it lies on the near side of one
of the first splits on its way. -/
theorem getPaneInDirection_iff {t : Tree α} (ht : t.Halved) (hnodup : t.panes.Nodup) {p : α}
    {way : Way} (hside : way.near ∈ t.toLink.sides way.axis p) :
    (t.toLink.getPaneInDirection p way.key).isSome = true ↔
      way.near ∈ (t.toLink.sides way.axis p).take way.reach := by
  have hp := mem_panes_of_side hside
  rw [← Tree.collectPanes_toLink, ← map_calculatePositions t.toLink dummyArea] at hp
  obtain ⟨⟨q, rect⟩, hrect, rfl⟩ := List.mem_map.1 hp
  rw [isSome_getPaneInDirection ht hnodup way hrect, ← Way.roomy_iff_take]
  constructor
  · rintro ⟨q', other, hmem, hahead⟩
    by_contra hroomy
    rw [← extent_dummyArea way.axis] at hroomy
    have hcells : way.near = .left → 1 ≤ dummyArea.extent way.axis := by
      intro _
      rw [extent_dummyArea]
      decide
    have hedge := center_eq_edge ht hnodup proper_dummyArea hcells hside hroomy hrect
    have hbounds := center_bounds ht way.axis proper_dummyArea hmem
    rw [hedge] at hahead
    rw [lo_dummyArea, extent_dummyArea] at hbounds
    cases hnear : way.near with
    | left =>
        rw [hnear] at hahead
        simp only [Ahead, edge, lo_dummyArea, extent_dummyArea] at hahead
        omega
    | right =>
        rw [hnear] at hahead
        simp only [Ahead, edge, lo_dummyArea] at hahead
        omega
  · intro hroomy
    rw [← extent_dummyArea way.axis] at hroomy
    exact exists_ahead ht hnodup proper_dummyArea hroomy hrect

end Found

/-- In a layout built by splitting, a pane that lies on the near side of some split in the way
finds a pane there, and `navigate` moves from it, exactly if it does so at one of the first six
(to the left and up) or seven (to the right and down) splits of this direction on its way from
the root. -/
theorem navigate_iff {root : Link Nat} (hbuilt : root.Built) {p : Nat} {way : Way}
    (hside : way.near ∈ root.sides way.axis p) :
    ((root.getPaneInDirection p way.key).isSome = true ↔
      way.near ∈ (root.sides way.axis p).take way.reach) ∧
    ∀ w : Window, w.layout = root → w.activePane = some p →
      ((w.navigate way.key).1 = true ↔ way.near ∈ (root.sides way.axis p).take way.reach) := by
  obtain ⟨t, rfl, ht, hnodup⟩ := hbuilt.tree
  have hiff := getPaneInDirection_iff ht hnodup hside
  refine ⟨hiff, fun w hlayout hactive => ?_⟩
  rw [← hiff, Window.navigate, hactive]
  dsimp only
  rw [hlayout]
  split
  · next hnone => simp [hnone]
  · next next hsome => simp [hsome]

/-- A window in which the new pane is split to the right, again and again. -/
def splitOften : Nat → Window
  | 0 => Window.initial
  | n + 1 => ((splitOften n).splitActive .horizontal).2

theorem built_splitOften : (splitOften 1).layout.Built :=
  @Link.Built.split Nat _ _ (.root 0) 0 1 .horizontal (by decide) (by decide)

theorem navigate_iff_two :
    (((splitOften 1).layout.getPaneInDirection 0 'l').isSome = true ↔
      Link.Side.left ∈ ((splitOften 1).layout.sides .horizontal 0).take 7) ∧
    ∀ w : Window, w.layout = (splitOften 1).layout → w.activePane = some 0 →
      ((w.navigate 'l').1 = true ↔
        Link.Side.left ∈ ((splitOften 1).layout.sides .horizontal 0).take 7) :=
  @navigate_iff (splitOften 1).layout built_splitOften 0 .right (by decide +kernel)

/-- Of nine panes beside one another the last but one finds no way to the last. -/
theorem stuck_at_edge :
    Link.Side.left ∈ (splitOften 8).layout.sides .horizontal 7 ∧
      (splitOften 8).layout.getPaneInDirection 7 'l' = none ∧
      (((splitOften 8).setActive 7).navigate 'l').1 = false := by
  decide +kernel

end Nazg.Tui

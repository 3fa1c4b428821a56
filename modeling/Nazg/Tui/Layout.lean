import Mathlib.Algebra.Order.Group.Unbundled.Int
import Mathlib.Data.Rat.Defs

/-!
# The layout engine of the terminal UI

A layout is a binary tree of owning pointers: a node that holds a pane is a
leaf, one that holds none is a split. A `Link` is such a pointer, so a child that
is missing is a `null` link and not a missing case.

`remove_pane` replaces a split by the sibling of the removed leaf with one move
assignment, taken from a node that the assigned-to node owns. The members are
moved one after the other in the order of their declaration, and storing into the
pointer that owns the source destroys the source. The steps are therefore spelled
out, on a state that remembers who owns what (`Promotion`).

The split ratios are floats that these functions only store and copy, so any
rational stands for itself.
-/

namespace Nazg.Tui

inductive SplitDirection where
  | horizontal
  | vertical
  deriving DecidableEq

/-- A `std::unique_ptr<Layout::Node>`: nothing, or a node it owns. -/
inductive Link (α : Type*) where
  | null
  | node (pane : Option α) (splitDir : SplitDirection) (left right : Link α) (splitRatio : ℚ)
  deriving DecidableEq

namespace Link

variable {α : Type*} [DecidableEq α]

/-- A freshly made node that holds a pane. -/
def leaf (pane : α) : Link α := node (some pane) .horizontal null null (1 / 2)

/-- `node && node->is_leaf() && node->pane == pane`. -/
def isLeafOf (pane : α) : Link α → Bool
  | null => false
  | node p _ _ _ _ => p = some pane

/-- `collect_panes`. -/
def collectPanes : Link α → List α
  | null => []
  | node (some pane) _ _ _ _ => [pane]
  | node none _ l r _ => l.collectPanes ++ r.collectPanes

/-! ## Addressing a node -/

inductive Side where
  | left
  | right
  deriving DecidableEq

/-- The node at the end of a path from this one. -/
def follow : Link α → List Side → Link α
  | t, [] => t
  | null, _ :: _ => null
  | node _ _ l _ _, .left :: path => l.follow path
  | node _ _ _ r _, .right :: path => r.follow path

/-- Writing through a node pointer: the rest of the tree stays as it is. -/
def modify (f : Link α → Link α) : Link α → List Side → Link α
  | t, [] => f t
  | null, _ :: _ => null
  | node p d l r ratio, .left :: path => node p d (l.modify f path) r ratio
  | node p d l r ratio, .right :: path => node p d l (r.modify f path) ratio

/-- The lambda `find_parent` of `remove_pane`. -/
def findParent (target : α) : Link α → Option (List Side)
  | null => none
  | node p _ l r _ =>
      if p.isSome then none
      else if l.isLeafOf target then some []
      else if r.isLeafOf target then some []
      else
        match l.findParent target with
        | some path => some (.left :: path)
        | none => (r.findParent target).map (.right :: ·)

end Link

/-! ## Promoting the sibling -/

/-- What a child pointer of the parent owns: the sibling being promoted, or
anything else. -/
inductive Owner (α : Type*) where
  | sibling
  | tree (t : Link α)

/-- The members of a node; `π` is what its child pointers are. -/
structure Fields (α π : Type*) where
  pane : Option α
  splitDir : SplitDirection
  left : π
  right : π
  splitRatio : ℚ

/-- The assignment `*parent = std::move(*promote_ptr)` under way. Destroying the
sibling nulls its child pointers and leaves its plain members as they were; any
later access to it is recorded in `readDestroyed`. -/
structure Promotion (α : Type*) where
  parent : Fields α (Owner α)
  sibling : Fields α (Link α)
  destroyed : Bool
  readDestroyed : Bool

namespace Promotion

variable {α : Type*}

/-- A member of the sibling is read. -/
def touch (s : Promotion α) : Promotion α :=
  { s with readDestroyed := s.readDestroyed || s.destroyed }

/-- What `old` owned is deleted, the sibling with all it still owns included. -/
def release (old : Owner α) (s : Promotion α) : Promotion α :=
  match old with
  | .sibling =>
      { s with
        sibling := { s.sibling with left := .null, right := .null }
        destroyed := true }
  | .tree _ => s

def movePane (s : Promotion α) : Promotion α :=
  { s.touch with parent := { s.parent with pane := s.sibling.pane } }

def moveSplitDir (s : Promotion α) : Promotion α :=
  { s.touch with parent := { s.parent with splitDir := s.sibling.splitDir } }

/-- `left = std::move(other.left)`: released there, stored here, the old one deleted. -/
def moveLeft (s : Promotion α) : Promotion α :=
  release s.parent.left
    { s.touch with
      sibling := { s.sibling with left := .null }
      parent := { s.parent with left := .tree s.sibling.left } }

def moveRight (s : Promotion α) : Promotion α :=
  release s.parent.right
    { s.touch with
      sibling := { s.sibling with right := .null }
      parent := { s.parent with right := .tree s.sibling.right } }

def moveSplitRatio (s : Promotion α) : Promotion α :=
  { s.touch with parent := { s.parent with splitRatio := s.sibling.splitRatio } }

/-- `promote_ptr.reset()`, where `promote_ptr` names the parent's own pointer. -/
def resetPromoted (removedLeft : Bool) (s : Promotion α) : Promotion α :=
  if removedLeft then
    release s.parent.right { s with parent := { s.parent with right := .tree .null } }
  else
    release s.parent.left { s with parent := { s.parent with left := .tree .null } }

/-- The two statements, from the parent's members, its other child and the sibling. -/
def run (removedLeft : Bool) (parent : Fields α (Link α)) (sibling : Fields α (Link α)) :
    Promotion α :=
  let s : Promotion α :=
    { parent :=
        { parent with
          left := if removedLeft then .tree parent.left else .sibling
          right := if removedLeft then .sibling else .tree parent.right }
      sibling := sibling
      destroyed := false
      readDestroyed := false }
  (s.movePane.moveSplitDir.moveLeft.moveRight.moveSplitRatio).resetPromoted removedLeft

/-- The tree a pointer of the parent owns. -/
def ownedTree (s : Promotion α) : Owner α → Link α
  | .sibling =>
      .node s.sibling.pane s.sibling.splitDir s.sibling.left s.sibling.right s.sibling.splitRatio
  | .tree t => t

/-- The parent as the statements leave it. -/
def result (s : Promotion α) : Link α :=
  .node s.parent.pane s.parent.splitDir (s.ownedTree s.parent.left) (s.ownedTree s.parent.right)
    s.parent.splitRatio

end Promotion

namespace Link

variable {α : Type*} [DecidableEq α]

/-- Replacing a parent by the sibling of its removed leaf; `none` when there is
no sibling to promote. -/
def promote (pane : α) : Link α → Option (Link α)
  | null => none
  | node p d l r ratio =>
      let removedLeft := l.isLeafOf pane
      match if removedLeft then r else l with
      | null => none
      | node p' d' l' r' ratio' =>
          some (Promotion.run removedLeft ⟨p, d, l, r, ratio⟩ ⟨p', d', l', r', ratio'⟩).result

/-- `Layout::remove_pane`: what it returns, and the tree it leaves. -/
def removePane (root : Link α) (pane : α) : Bool × Link α :=
  match root with
  | null => (false, root)
  | node .. =>
      if root.isLeafOf pane then (true, null)
      else
        match root.findParent pane with
        | none => (false, root)
        | some path =>
            match (root.follow path).promote pane with
            | none => (false, root)
            | some promoted => (true, root.modify (fun _ => promoted) path)

/-! ## Splitting -/

/-- `find_node`: where the leaf of the pane is. -/
def findNode (target : α) : Link α → Option (List Side)
  | null => none
  | node p d l r ratio =>
      if (node p d l r ratio).isLeafOf target then some []
      else
        match l.findNode target with
        | some path => some (.left :: path)
        | none => (r.findNode target).map (.right :: ·)

/-- The leaf becomes a split of itself and the new pane. -/
def divide (newPane : α) (direction : SplitDirection) : Link α → Link α
  | null => null
  | node p _ _ _ _ =>
      node none direction (node p .horizontal null null (1 / 2)) (leaf newPane) (1 / 2)

/-- `split_pane`. A node that `find_node` returns is a leaf. -/
def splitPane (root : Link α) (target newPane : α) (direction : SplitDirection) : Bool × Link α :=
  match root.findNode target with
  | none => (false, root)
  | some path => (true, root.modify (divide newPane direction) path)

end Link

/-! ## Snapshots -/

/-- A `std::unique_ptr<Layout::Snapshot::Node>`. -/
inductive SnapLink where
  | null
  | leaf (leafIndex : Nat)
  | split (splitDir : SplitDirection) (splitRatio : ℚ) (left right : SnapLink)
  deriving DecidableEq

structure Snapshot where
  root : SnapLink
  leafCount : Nat

namespace Link

variable {α : Type*}

/-- The lambda `clone` of `snapshot`, with its counter. -/
def clone : Link α → Nat → SnapLink × Nat
  | null, counter => (.null, counter)
  | node (some _) _ _ _ _, counter => (.leaf counter, counter + 1)
  | node none d l r ratio, counter =>
      let left := l.clone counter
      let right := r.clone left.2
      (.split d ratio left.1 right.1, right.2)

def snapshot (root : Link α) : Snapshot := ⟨(root.clone 0).1, (root.clone 0).2⟩

end Link

/-- The lambda `build` of `restore_from_snapshot`. -/
def SnapLink.build {α : Type*} (leaves : List α) : SnapLink → Link α
  | .null => .null
  | .leaf i =>
      match leaves[i]? with
      | none => .null
      | some pane => .leaf pane
  | .split d ratio l r =>
      match l.build leaves, r.build leaves with
      | .null, _ => .null
      | _, .null => .null
      | left, right => .node none d left right ratio

/-- `restore_from_snapshot` of a new layout: what it returns, and the tree it leaves. -/
def Snapshot.restore {α : Type*} (snapshot : Snapshot) (leaves : List α) : Bool × Link α :=
  match snapshot.root with
  | .null => (leaves.isEmpty, .null)
  | root =>
      if snapshot.leafCount ≠ leaves.length then (false, .null)
      else
        match root.build leaves with
        | .null => (false, .null)
        | built => (true, built)

/-- `restore_from_snapshot`: what it returns, and the tree it leaves. -/
def Link.restoreFromSnapshot {α : Type*} (root : Link α) (snapshot : Snapshot) (leaves : List α) :
    Bool × Link α :=
  match snapshot.root with
  | .null => (leaves.isEmpty, .null)
  | snapRoot =>
      if snapshot.leafCount ≠ leaves.length then (false, root)
      else
        match snapRoot.build leaves with
        | .null => (false, root)
        | newRoot => (true, newRoot)

/-! ## Positions -/

structure Rect where
  x : Int
  y : Int
  width : Int
  height : Int

/-- The comparisons of `get_pane_at_position`. -/
def Rect.contains (rect : Rect) (x y : Int) : Bool :=
  rect.x ≤ x && x < rect.x + rect.width && rect.y ≤ y && y < rect.y + rect.height

/-- `static_cast<int>(size * ratio)`. -/
def scaled (size : Int) (ratio : ℚ) : Int := (size * ratio.num).tdiv ratio.den

namespace Link

variable {α : Type*}

def calculatePositions : Link α → Rect → List (α × Rect)
  | null, _ => []
  | node (some pane) _ _ _ _, area => [(pane, area)]
  | node none .horizontal l r ratio, area =>
      let splitX := area.x + scaled area.width ratio
      let leftArea := { area with width := splitX - area.x }
      l.calculatePositions leftArea ++
        r.calculatePositions { area with x := splitX, width := area.width - leftArea.width }
  | node none .vertical l r ratio, area =>
      let splitY := area.y + scaled area.height ratio
      let topArea := { area with height := splitY - area.y }
      l.calculatePositions topArea ++
        r.calculatePositions { area with y := splitY, height := area.height - topArea.height }

/-- `get_pane_at_position`. -/
def getPaneAtPosition (root : Link α) (x y : Int) (area : Rect) : Option α :=
  ((root.calculatePositions area).find? fun position => position.2.contains x y).map Prod.fst

/-- How far a pane lies in a direction, if it does. -/
def distance (direction : Char) (dx dy : Int) : Option Int :=
  match direction with
  | 'h' => if dx < 0 then some (-dx + |dy|) else none
  | 'l' => if 0 < dx then some (dx + |dy|) else none
  | 'k' => if dy < 0 then some (-dy + |dx|) else none
  | 'j' => if 0 < dy then some (dy + |dx|) else none
  | _ => none

/-- One round of the loop of `get_pane_in_direction`: the best pane and its distance. -/
def nearer [DecidableEq α] (current : α) (center : Int × Int) (direction : Char)
    (best : Option α × Int) (position : α × Rect) : Option α × Int :=
  if position.1 = current then best
  else
    let area := position.2
    let dx := area.x + area.width.tdiv 2 - center.1
    let dy := area.y + area.height.tdiv 2 - center.2
    match distance direction dx dy with
    | none => best
    | some d => if d < best.2 then (some position.1, d) else best

def getPaneInDirection [DecidableEq α] (root : Link α) (current : α) (direction : Char) :
    Option α :=
  let positions := root.calculatePositions ⟨0, 0, 100, 100⟩
  match positions.find? fun position => position.1 = current with
  | none => none
  | some (_, area) =>
      let center := (area.x + area.width.tdiv 2, area.y + area.height.tdiv 2)
      (positions.foldl (nearer current center direction) (none, 2 ^ 31 - 1)).1

end Link

end Nazg.Tui

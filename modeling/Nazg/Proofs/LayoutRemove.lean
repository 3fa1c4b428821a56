import Mathlib.Data.List.Nodup
import Mathlib.Tactic.Tauto
import Nazg.Tui.Layout

/-!
# Removing a pane destroys a split sibling

A `Tree` is what a layout is for: panes at the leaves, splits with a direction
and a ratio. Deleting a pane puts its sibling in the place of their parent
(`Tree.Removes`), and that is what `remove_pane` sets out to do.

The search for the parent is right at every depth (`findParent_toLink`), so what
happens is decided by the promotion alone. The sibling is owned by the node it is
moved into, and it dies in the middle of the move. A leaf has nothing left to
lose by then. A split does: one child is moved into the very pointer that is
reset at the end, and on the left side the other child dies with the sibling.
-/

namespace Nazg.Tui

/-! ## Layout trees -/

inductive Tree (α : Type*) where
  | leaf (pane : α)
  | split (splitDir : SplitDirection) (splitRatio : ℚ) (left right : Tree α)
  deriving DecidableEq

namespace Tree

variable {α : Type*}

/-- The panes from left to right. -/
def panes : Tree α → List α
  | leaf pane => [pane]
  | split _ _ l r => l.panes ++ r.panes

def IsLeaf : Tree α → Prop
  | leaf _ => True
  | split .. => False

/-- Every split has the ratio that `split_pane` sets. -/
def Halved : Tree α → Prop
  | leaf _ => True
  | split _ ratio l r => ratio = 1 / 2 ∧ l.Halved ∧ r.Halved

/-- The nodes of a tree. -/
def toLink : Tree α → Link α
  | leaf pane => .leaf pane
  | split d ratio l r => .node none d l.toLink r.toLink ratio

/-- Deleting the leaf `p` of `t` gives `t'`, in which `sibling` stands where its
parent stood. -/
inductive Removes (p : α) : (t sibling t' : Tree α) → Prop where
  | atLeft (d ratio s) : Removes p (split d ratio (leaf p) s) s s
  | atRight (d ratio s) : Removes p (split d ratio s (leaf p)) s s
  | inLeft (d ratio r) {l s l'} (h : Removes p l s l') :
      Removes p (split d ratio l r) s (split d ratio l' r)
  | inRight (d ratio l) {r s r'} (h : Removes p r s r') :
      Removes p (split d ratio l r) s (split d ratio l r')

theorem toLink_ne_null (t : Tree α) : t.toLink ≠ .null := by
  cases t <;> exact nofun

theorem toLink_injective : Function.Injective (toLink : Tree α → Link α) := by
  intro t
  induction t with
  | leaf p =>
      intro u h
      cases u with
      | leaf q => cases h; rfl
      | split => cases h
  | split d ratio l r ihl ihr =>
      intro u h
      cases u with
      | leaf q => cases h
      | split d' ratio' l' r' =>
          injection h with _ hd hl hr hratio
          rw [hd, hratio, ihl hl, ihr hr]

/-- `get_all_panes` lists the panes of the tree. -/
theorem collectPanes_toLink (t : Tree α) : t.toLink.collectPanes = t.panes := by
  induction t with
  | leaf p => rfl
  | split d ratio l r ihl ihr => rw [toLink, Link.collectPanes, ihl, ihr, panes]

theorem Removes.panes_mem {p : α} {t s t' : Tree α} (h : Removes p t s t') : p ∈ t.panes := by
  induction h with
  | atLeft => simp [panes]
  | atRight => simp [panes]
  | inLeft d ratio r _ ih => exact List.mem_append_left _ ih
  | inRight d ratio l _ ih => exact List.mem_append_right _ ih

/-- A pane of a tree with another leaf has a sibling and can be deleted. -/
theorem exists_removes {p : α} {t : Tree α} (hp : p ∈ t.panes) (hsplit : ¬ t.IsLeaf) :
    ∃ s t', Removes p t s t' := by
  induction t with
  | leaf q => exact absurd trivial hsplit
  | split d ratio l r ihl ihr =>
      rcases List.mem_append.1 hp with hl | hr
      · cases l with
        | leaf q => exact ⟨r, r, List.mem_singleton.1 hl ▸ .atLeft d ratio r⟩
        | split d' ratio' ll lr =>
            obtain ⟨s, t', h⟩ := ihl hl id
            exact ⟨s, _, .inLeft d ratio r h⟩
      · cases r with
        | leaf q => exact ⟨l, l, List.mem_singleton.1 hr ▸ .atRight d ratio l⟩
        | split d' ratio' rl rr =>
            obtain ⟨s, t', h⟩ := ihr hr id
            exact ⟨s, _, .inRight d ratio l h⟩

/-- The panes left are the old ones with `p` deleted. -/
theorem Removes.panes_eq [DecidableEq α] {p : α} {t s t' : Tree α} (h : Removes p t s t')
    (hnd : t.panes.Nodup) : t'.panes = t.panes.erase p := by
  induction h with
  | atLeft => simp [panes]
  | atRight d ratio s =>
      have hp : p ∉ s.panes := fun hp =>
        (List.nodup_append.1 hnd).2.2 p hp p (List.mem_singleton.2 rfl) rfl
      simp [panes, List.erase_append_right _ hp]
  | inLeft d ratio r h ih =>
      rw [panes, panes, ih (List.nodup_append.1 hnd).1, List.erase_append_left _ h.panes_mem]
  | @inRight d ratio l r s r' h ih =>
      have hp : p ∉ l.panes := fun hp => (List.nodup_append.1 hnd).2.2 p hp p h.panes_mem rfl
      rw [panes, panes, ih (List.nodup_append.1 hnd).2.1, List.erase_append_right _ hp]

/-- With distinct panes there is one sibling and one outcome. -/
theorem Removes.unique {p : α} {t s t' s₂ t₂ : Tree α} (h : Removes p t s t')
    (h₂ : Removes p t s₂ t₂) (hnd : t.panes.Nodup) : s = s₂ ∧ t' = t₂ := by
  induction h generalizing s₂ t₂ with
  | atLeft d ratio s =>
      have hs : p ∉ s.panes := (List.nodup_cons.1 hnd).1
      cases h₂ with
      | atLeft => exact ⟨rfl, rfl⟩
      | atRight => exact absurd (List.mem_singleton.2 rfl) hs
      | inLeft _ _ _ h => cases h
      | inRight _ _ _ h => exact absurd h.panes_mem hs
  | atRight d ratio s =>
      have hs : p ∉ s.panes := fun hp =>
        (List.nodup_append.1 hnd).2.2 p hp p (List.mem_singleton.2 rfl) rfl
      cases h₂ with
      | atLeft => exact absurd (List.mem_singleton.2 rfl) hs
      | atRight => exact ⟨rfl, rfl⟩
      | inLeft _ _ _ h => exact absurd h.panes_mem hs
      | inRight _ _ _ h => cases h
  | @inLeft d ratio r l s l' h ih =>
      obtain ⟨hl, -, hdis⟩ := List.nodup_append.1 hnd
      cases h₂ with
      | atLeft => cases h
      | atRight => exact absurd rfl (hdis p h.panes_mem p (List.mem_singleton.2 rfl))
      | inLeft _ _ _ h' =>
          obtain ⟨rfl, rfl⟩ := ih h' hl
          exact ⟨rfl, rfl⟩
      | inRight _ _ _ h' => exact absurd rfl (hdis p h.panes_mem p h'.panes_mem)
  | @inRight d ratio l r s r' h ih =>
      obtain ⟨-, hr, hdis⟩ := List.nodup_append.1 hnd
      cases h₂ with
      | atLeft => exact absurd rfl (hdis p (List.mem_singleton.2 rfl) p h.panes_mem)
      | atRight => cases h
      | inLeft _ _ _ h' => exact absurd rfl (hdis p h'.panes_mem p h.panes_mem)
      | inRight _ _ _ h' =>
          obtain ⟨rfl, rfl⟩ := ih h' hr
          exact ⟨rfl, rfl⟩

end Tree

/-! ## The promotion -/

/-- What is left of the sibling after the move: on the right it keeps its left
child, on the left it keeps none. -/
def Link.moved {α : Type*} (removedLeft : Bool) : Link α → Link α
  | .null => .null
  | .node p d l _ ratio => .node p d (if removedLeft then l else .null) .null ratio

section

variable {α : Type*}

theorem run_result (removedLeft : Bool) (parent sibling : Fields α (Link α)) :
    (Promotion.run removedLeft parent sibling).result =
      Link.moved removedLeft (.node sibling.pane sibling.splitDir sibling.left sibling.right
        sibling.splitRatio) := by
  cases removedLeft <;> rfl

/-- Whatever is promoted, a member of the sibling is read after its destruction. -/
theorem run_readDestroyed (removedLeft : Bool) (parent sibling : Fields α (Link α)) :
    (Promotion.run removedLeft parent sibling).readDestroyed = true := by
  cases removedLeft <;> rfl

/-- A leaf survives the move, a split never does. -/
theorem moved_toLink_iff (removedLeft : Bool) (s : Tree α) :
    Link.moved removedLeft s.toLink = s.toLink ↔ s.IsLeaf := by
  cases s with
  | leaf p => cases removedLeft <;> exact ⟨fun _ => trivial, fun _ => rfl⟩
  | split d ratio l r =>
      refine ⟨fun h => ?_, False.elim⟩
      injection h with _ _ _ hr
      exact absurd hr.symm r.toLink_ne_null

end

/-! ## The search for the parent -/

section

variable {α : Type*} [DecidableEq α]

theorem isLeafOf_toLink {p : α} {t : Tree α} : t.toLink.isLeafOf p = true ↔ t = .leaf p := by
  cases t with
  | leaf q => simp [Tree.toLink, Link.leaf, Link.isLeafOf]
  | split => simp [Tree.toLink, Link.isLeafOf]

theorem isLeafOf_toLink_of_notMem {p : α} {t : Tree α} (hp : p ∉ t.panes) :
    t.toLink.isLeafOf p = false := by
  rw [Bool.eq_false_iff, Ne, isLeafOf_toLink]
  rintro rfl
  exact hp (List.mem_singleton.2 rfl)

theorem Tree.Removes.isLeafOf_toLink {p : α} {t s t' : Tree α} (h : t.Removes p s t') :
    t.toLink.isLeafOf p = false := by
  cases h <;> rfl

theorem findParent_of_notMem {p : α} {t : Tree α} (hp : p ∉ t.panes) :
    t.toLink.findParent p = none := by
  induction t with
  | leaf q => rfl
  | split d ratio l r ihl ihr =>
      obtain ⟨hl, hr⟩ : p ∉ l.panes ∧ p ∉ r.panes := by
        rwa [Tree.panes, List.mem_append, not_or] at hp
      simp [Tree.toLink, Link.findParent, isLeafOf_toLink_of_notMem hl,
        isLeafOf_toLink_of_notMem hr, ihl hl, ihr hr]

/-- The search ends at the parent of `p`, and writing there what the promotion
makes of the sibling gives the right tree exactly when the sibling is intact. -/
theorem findParent_toLink {p : α} {t s t' : Tree α} (h : t.Removes p s t')
    (hnd : t.panes.Nodup) :
    ∃ path removedLeft, t.toLink.findParent p = some path ∧
      (t.toLink.follow path).promote p = some (Link.moved removedLeft s.toLink) ∧
      ∀ promoted, t.toLink.modify (fun _ => promoted) path = t'.toLink ↔
        promoted = s.toLink := by
  induction h with
  | atLeft d ratio s =>
      refine ⟨[], true, ?_, ?_, fun promoted => Iff.rfl⟩
      · simp [Tree.toLink, Link.findParent, Link.leaf, Link.isLeafOf]
      · cases hs : s.toLink with
        | null => exact absurd hs s.toLink_ne_null
        | node p' d' l' r' ratio' =>
            simp [Tree.toLink, Link.follow, Link.promote, Link.leaf, Link.isLeafOf, hs, run_result]
  | atRight d ratio s =>
      have hs : p ∉ s.panes := fun hp =>
        (List.nodup_append.1 hnd).2.2 p hp p (List.mem_singleton.2 rfl) rfl
      have hleaf := isLeafOf_toLink_of_notMem hs
      refine ⟨[], false, ?_, ?_, fun promoted => Iff.rfl⟩
      · simp [Tree.toLink, Link.findParent, Link.leaf, Link.isLeafOf]
      · cases hs : s.toLink with
        | null => exact absurd hs s.toLink_ne_null
        | node p' d' l' r' ratio' =>
            rw [hs] at hleaf
            simp [Tree.toLink, Link.follow, Link.promote, hs, hleaf, run_result]
  | @inLeft d ratio r l s l' h ih =>
      obtain ⟨hl, -, hdis⟩ := List.nodup_append.1 hnd
      have hr : p ∉ r.panes := fun hp => hdis p h.panes_mem p hp rfl
      obtain ⟨path, removedLeft, hfind, hpromote, hmodify⟩ := ih hl
      refine ⟨.left :: path, removedLeft, ?_, hpromote, fun promoted => ?_⟩
      · simp [Tree.toLink, Link.findParent, h.isLeafOf_toLink, isLeafOf_toLink_of_notMem hr, hfind]
      · rw [← hmodify]
        simp [Tree.toLink, Link.modify]
  | @inRight d ratio l r s r' h ih =>
      obtain ⟨-, hr, hdis⟩ := List.nodup_append.1 hnd
      have hl : p ∉ l.panes := fun hp => hdis p hp p h.panes_mem rfl
      obtain ⟨path, removedLeft, hfind, hpromote, hmodify⟩ := ih hr
      refine ⟨.right :: path, removedLeft, ?_, hpromote, fun promoted => ?_⟩
      · simp [Tree.toLink, Link.findParent, h.isLeafOf_toLink, isLeafOf_toLink_of_notMem hl,
          findParent_of_notMem hl, hfind]
      · rw [← hmodify]
        simp [Tree.toLink, Link.modify]

/-! ## Removal -/

/-- What removing `p` promises: success, and the tree with `p` deleted, its
sibling whole in the place of their parent and the rest untouched. -/
def RemovedCleanly (t : Tree α) (p : α) : Prop :=
  ∃ s t', t.Removes p s t' ∧ t'.panes = t.panes.erase p ∧ t.toLink.removePane p = (true, t'.toLink)

/-- Removing a pane beside any sibling succeeds and leaves what the move makes of
the sibling in the place of the parent. -/
theorem removePane_toLink {p : α} {t s t' : Tree α} (h : t.Removes p s t')
    (hnd : t.panes.Nodup) :
    (t.toLink.removePane p).1 = true ∧
      ((t.toLink.removePane p).2 = t'.toLink ↔ s.IsLeaf) := by
  obtain ⟨path, removedLeft, hfind, hpromote, hmodify⟩ := findParent_toLink h hnd
  have hrun : t.toLink.removePane p =
      (true, t.toLink.modify (fun _ => Link.moved removedLeft s.toLink) path) := by
    cases ht : t.toLink with
    | null => exact absurd ht t.toLink_ne_null
    | node =>
        rw [ht] at hfind hpromote
        rw [Link.removePane, ← ht, h.isLeafOf_toLink, ht, hfind]
        simp [hpromote]
  rw [hrun]
  exact ⟨rfl, (hmodify _).trans (moved_toLink_iff removedLeft s)⟩

/-- A pane of a layout with at least two panes is removed cleanly exactly when
its sibling is a leaf. -/
theorem removedCleanly_iff (t : Tree α) (p : α) (hnd : t.panes.Nodup) (hp : p ∈ t.panes)
    (htwo : 2 ≤ t.panes.length) :
    RemovedCleanly t p ↔ ∃ q t', t.Removes p (.leaf q) t' := by
  have hsplit : ¬ t.IsLeaf := by
    cases t with
    | leaf q => simp [Tree.panes] at htwo
    | split => exact id
  obtain ⟨s, t', h⟩ := Tree.exists_removes hp hsplit
  obtain ⟨hok, hiff⟩ := removePane_toLink h hnd
  constructor
  · rintro ⟨s₂, t₂, h₂, -, hrun⟩
    obtain ⟨rfl, rfl⟩ := h.unique h₂ hnd
    rw [hrun] at hiff
    cases s with
    | leaf q => exact ⟨q, t', h⟩
    | split => exact absurd (hiff.1 rfl) id
  · rintro ⟨q, t₂, h₂⟩
    obtain ⟨rfl, rfl⟩ := h.unique h₂ hnd
    exact ⟨.leaf q, t', h, h.panes_eq hnd, Prod.ext hok (hiff.2 trivial)⟩

/-- Three panes: one beside a split of the other two. -/
def besideSplit : Tree Nat := .split .horizontal (1 / 2) (.leaf 0)
  (.split .vertical (1 / 2) (.leaf 1) (.leaf 2))

theorem removedCleanly_iff_besideSplit :
    RemovedCleanly besideSplit 1 ↔ ∃ q t', besideSplit.Removes 1 (.leaf q) t' :=
  removedCleanly_iff besideSplit 1 (by decide) (by decide) (by decide)

/-- Removing the pane beside the split loses one of the two others. -/
theorem besideSplit_pane_lost :
    besideSplit.panes.Nodup ∧ 0 ∈ besideSplit.panes ∧ 2 ≤ besideSplit.panes.length ∧
      (besideSplit.toLink.removePane 0).2.collectPanes = [1] ∧ ¬ RemovedCleanly besideSplit 0 := by
  refine ⟨by decide, by decide, by decide, by decide, ?_⟩
  rintro ⟨s, t', -, hpanes, hrun⟩
  have hleft : (besideSplit.toLink.removePane 0).2.collectPanes = t'.panes := by
    rw [hrun, Tree.collectPanes_toLink]
  rw [hpanes] at hleft
  exact absurd hleft (by decide)

end

end Nazg.Tui

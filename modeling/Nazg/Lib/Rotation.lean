import Mathlib.Data.List.Infix

/-!
# Rotating numbered files

A family of files, of which number 0 is written and the others hold what was written before,
the higher the number the longer ago. A rotation renames each file to the next number, from
the highest down, so that only the file with the highest number is overwritten.
-/

namespace Nazg.Lib.Rotation

variable {α β : Type*}

/-- The files that exist, by number. -/
abbrev Files (α : Type*) := Nat → Option (List α)

/-- The file takes the place of another one. -/
def rename (src dst : Nat) (f : Files α) : Files α := fun i =>
  if i = src then none else if i = dst then f src else f i

/-- Files `k` to 1 go to the next number if they exist, the highest first. -/
def shift : Nat → Files α → Files α
  | 0, f => f
  | k + 1, f => shift k (if (f (k + 1)).isSome then rename (k + 1) (k + 2) f else f)

/-- With room for `n` files behind the current one. -/
def rotate (n : Nat) (f : Files α) : Files α := rename 0 1 (shift (n - 1) f)

/-- The file exists afterwards. -/
def touch (f : Files α) : Files α := fun i => if i = 0 then some ((f 0).getD []) else f i

/-- Something is written to the current file. -/
def append (text : List α) (f : Files α) : Files α := fun i =>
  if i = 0 then (f 0).map (· ++ text) else f i

/-- What stands in the files `n` to 1. -/
def older : Nat → Files α → List α
  | 0, _ => []
  | n + 1, f => (f (n + 1)).getD [] ++ older n f

/-- What stands in all of them, the oldest first. -/
def contents (n : Nat) (f : Files α) : List α := older n f ++ (f 0).getD []

theorem older_congr {n : Nat} {f g : Files α} (h : ∀ i, 1 ≤ i → i ≤ n → f i = g i) :
    older n f = older n g := by
  induction n with
  | zero => rfl
  | succ n ih =>
      rw [older, older, h (n + 1) (by omega) (Nat.le_refl _),
        ih fun i hi hin => h i hi (by omega)]

theorem contents_touch (n : Nat) (f : Files α) : contents n (touch f) = contents n f := by
  have holder : older n (touch f) = older n f :=
    older_congr fun i hi _ => if_neg (by omega)
  rw [contents, contents, holder]
  rfl

theorem contents_append (n : Nat) (text : List α) {f : Files α} (h : (f 0).isSome) :
    contents n (append text f) = contents n f ++ text := by
  have holder : older n (append text f) = older n f :=
    older_congr fun i hi _ => if_neg (by omega)
  obtain ⟨current, hcurrent⟩ := Option.isSome_iff_exists.1 h
  rw [contents, contents, holder, List.append_assoc, append, if_pos rfl, hcurrent]
  rfl

theorem append_nil (f : Files α) : append [] f = f := by
  funext i
  rw [append]
  split
  · next h => rw [h]; cases f 0 <;> simp
  · rfl

theorem append_append (s t : List α) (f : Files α) :
    append t (append s f) = append (s ++ t) f := by
  funext i
  simp only [append]
  split
  · cases f 0 <;> simp
  · rfl

/-! ## Shifting -/

/-- One round of the shift. -/
def shiftOne (k : Nat) (f : Files α) : Files α :=
  if (f k).isSome then rename k (k + 1) f else f

theorem shiftOne_self (k : Nat) (f : Files α) : shiftOne k f k = none := by
  rw [shiftOne]
  split
  · exact if_pos rfl
  · next h => exact Option.not_isSome_iff_eq_none.1 h

theorem shiftOne_of_ne {k i : Nat} (f : Files α) (hk : i ≠ k) (hk' : i ≠ k + 1) :
    shiftOne k f i = f i := by
  rw [shiftOne]
  split
  · rw [rename, if_neg hk, if_neg hk']
  · rfl

theorem shiftOne_succ (k : Nat) (f : Files α) :
    shiftOne k f (k + 1) = if (f k).isSome then f k else f (k + 1) := by
  rw [shiftOne]
  split
  · rw [rename, if_neg (by omega), if_pos rfl]
  · rfl

theorem shift_succ (k : Nat) (f : Files α) : shift (k + 1) f = shift k (shiftOne (k + 1) f) := rfl

theorem shift_of_lt {k i : Nat} (f : Files α) (h : k + 1 < i) : shift k f i = f i := by
  induction k generalizing f with
  | zero => rfl
  | succ k ih => rw [shift_succ, ih _ (by omega), shiftOne_of_ne f (by omega) (by omega)]

theorem shift_zero (k : Nat) (f : Files α) : shift k f 0 = f 0 := by
  induction k generalizing f with
  | zero => rfl
  | succ k ih => rw [shift_succ, ih, shiftOne_of_ne f (by omega) (by omega)]

/-- Where there is room above, a shift loses nothing, and frees the first place. -/
theorem shift_of_free {k : Nat} {f : Files α} (h : f (k + 1) = none) :
    older (k + 1) (shift k f) = older (k + 1) f ∧ shift k f 1 = none := by
  induction k generalizing f with
  | zero => exact ⟨rfl, h⟩
  | succ k ih =>
      have hone := shiftOne_self (k + 1) f
      obtain ⟨holder, hfirst⟩ := ih hone
      refine ⟨?_, hfirst⟩
      have hbelow : older k (shiftOne (k + 1) f) = older k f :=
        older_congr fun i _ hik => shiftOne_of_ne f (by omega) (by omega)
      rw [shift_succ, older, holder, shift_of_lt _ (by omega), older, hone, hbelow, older, older, h,
        shiftOne_succ, h]
      cases hcurrent : f (k + 1) with
      | none => rfl
      | some text => simp

/-- A shift loses at most what stands in the last place. -/
theorem shift_suffix (k : Nat) (f : Files α) :
    older (k + 2) (shift (k + 1) f) <:+ older (k + 2) f ∧ shift (k + 1) f 1 = none := by
  obtain ⟨holder, hfirst⟩ := shift_of_free (shiftOne_self (k + 1) f)
  refine ⟨?_, hfirst⟩
  have hbelow : older k (shiftOne (k + 1) f) = older k f :=
    older_congr fun i _ hik => shiftOne_of_ne f (by omega) (by omega)
  rw [shift_succ, older, holder, shift_of_lt _ (by omega), older, shiftOne_self, hbelow, older,
    older, shiftOne_succ]
  cases hcurrent : f (k + 1) with
  | none => exact List.suffix_refl _
  | some text => simp

/-! ## Rotating -/

/-- Only the oldest file can be lost. -/
theorem contents_rotate {n : Nat} (hn : 1 ≤ n) (f : Files α) :
    contents n (rotate n f) <:+ contents n f := by
  have hrotated : ∀ g : Files α, contents n (rename 0 1 g) =
      older n (fun i => if i = 1 then g 0 else g i) := by
    intro g
    have holder : older n (rename 0 1 g) = older n fun i => if i = 1 then g 0 else g i :=
      older_congr fun i hi _ => by rw [rename, if_neg (by omega)]
    rw [contents, holder, rename, if_pos rfl, Option.getD_none, List.append_nil]
  -- What stands in place 1 is replaced by the current file.
  have hreplaced : ∀ (m : Nat) (g : Files α), g 1 = none →
      older (m + 1) (fun i => if i = 1 then g 0 else g i) = contents (m + 1) g := by
    intro m g hg
    induction m with
    | zero => simp [older, contents, hg]
    | succ m ih =>
        rw [older, ih, contents, contents, ← List.append_assoc, if_neg (by omega)]
        rfl
  obtain ⟨m, rfl⟩ : ∃ m, n = m + 1 := ⟨n - 1, by omega⟩
  rw [rotate, hrotated, Nat.add_sub_cancel]
  cases m with
  | zero => simp [older, contents, shift]
  | succ k =>
      obtain ⟨hsuffix, hfirst⟩ := shift_suffix k f
      rw [hreplaced (k + 1) _ hfirst, contents, contents, shift_zero]
      obtain ⟨lost, hlost⟩ := hsuffix
      exact ⟨lost, by rw [← List.append_assoc, hlost]⟩

theorem rotate_of_lt {n i : Nat} (hn : 1 ≤ n) (f : Files α) (h : n < i) : rotate n f i = f i := by
  rw [rotate, rename, if_neg (by omega), if_neg (by omega), shift_of_lt f (by omega)]

/-! ## Another reading of the contents -/

/-- The same files with contents of another kind. -/
def mapFiles (φ : List α → List β) (f : Files α) : Files β := fun i => (f i).map φ

variable (φ : List α → List β)

theorem mapFiles_rename (src dst : Nat) (f : Files α) :
    rename src dst (mapFiles φ f) = mapFiles φ (rename src dst f) := by
  funext i
  simp only [rename, mapFiles]
  split
  · rfl
  · split <;> rfl

theorem mapFiles_shift (k : Nat) (f : Files α) :
    shift k (mapFiles φ f) = mapFiles φ (shift k f) := by
  induction k generalizing f with
  | zero => rfl
  | succ k ih =>
      rw [shift, shift, mapFiles_rename, ← ih]
      have hsame : (mapFiles φ f (k + 1)).isSome = (f (k + 1)).isSome := Option.isSome_map
      rw [hsame]
      split <;> rfl

theorem mapFiles_rotate (n : Nat) (f : Files α) :
    rotate n (mapFiles φ f) = mapFiles φ (rotate n f) := by
  rw [rotate, mapFiles_shift, mapFiles_rename, rotate]

theorem mapFiles_append {φ : List α → List β} (hφ : ∀ s t, φ (s ++ t) = φ s ++ φ t) (text : List α)
    (f : Files α) : append (φ text) (mapFiles φ f) = mapFiles φ (append text f) := by
  funext i
  simp only [append, mapFiles]
  split
  · cases f 0 with
    | none => rfl
    | some s => rw [Option.map_some, Option.map_some, Option.map_some, Option.map_some, hφ]
  · rfl

theorem mapFiles_touch (h : φ [] = []) (f : Files α) :
    touch (mapFiles φ f) = mapFiles φ (touch f) := by
  funext i
  simp only [touch, mapFiles]
  split
  · cases f 0 with
    | none => rw [Option.map_none, Option.getD_none, Option.getD_none, Option.map_some, h]
    | some text => rfl
  · rfl

theorem older_mapFiles {φ : List α → List β} (hφ : ∀ s t, φ (s ++ t) = φ s ++ φ t)
    (hnil : φ [] = []) (n : Nat) (f : Files α) : older n (mapFiles φ f) = φ (older n f) := by
  induction n with
  | zero => exact hnil.symm
  | succ n ih =>
      rw [older, older, ih, hφ, mapFiles]
      cases f (n + 1) with
      | none => rw [Option.map_none, Option.getD_none, Option.getD_none, hnil]
      | some text => rfl

theorem contents_mapFiles {φ : List α → List β} (hφ : ∀ s t, φ (s ++ t) = φ s ++ φ t)
    (hnil : φ [] = []) (n : Nat) (f : Files α) : contents n (mapFiles φ f) = φ (contents n f) := by
  rw [contents, contents, hφ, older_mapFiles hφ hnil, mapFiles]
  cases f 0 with
  | none => rw [Option.map_none, Option.getD_none, Option.getD_none, hnil]
  | some text => rfl

end Nazg.Lib.Rotation

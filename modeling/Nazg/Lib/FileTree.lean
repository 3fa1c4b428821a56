import Nazg.Lib.OrdMap
import Nazg.Lib.Bytes

/-!
# Trees of files

The regular files and directories below a root, by their paths relative to it. Every path
goes through directories only, so a tree in which a file has something below it cannot be
built; `put` is the one way to change a tree, and refuses what would break this.

The calls that programs make (`create_directories`, `copy_file`) may fail where the tree
allows them. Which do, and what a copy that fails half way leaves of its target, is for the
disk to say. Whatever it says, a call leaves every file but its target as it was.
-/

namespace Nazg.Lib

abbrev slash : UInt8 := 47

/-- The directories a relative path goes through, from the outermost. -/
def ancestors : Bytes → List Bytes
  | [] => []
  | c :: s =>
      let below := (ancestors s).map (c :: ·)
      if c = slash then [] :: below else below

theorem mem_ancestors {d p : Bytes} : d ∈ ancestors p ↔ d ++ [slash] <+: p := by
  induction p generalizing d with
  | nil => simp [ancestors]
  | cons c s ih =>
      have hmap : d ∈ (ancestors s).map (c :: ·) ↔ ∃ e, e ++ [slash] <+: s ∧ c :: e = d := by
        simp only [List.mem_map, ih]
      cases d with
      | nil =>
          have hnil : ([] : Bytes) ∉ (ancestors s).map (c :: ·) := by
            rw [hmap]
            rintro ⟨e, -, h⟩
            cases h
          rw [ancestors, List.nil_append, List.cons_prefix_cons]
          split
          · next hc => simp [hc]
          · next hc => simp [hnil, Ne.symm hc]
      | cons x d =>
          rw [List.cons_append, List.cons_prefix_cons]
          have hiff : x :: d ∈ ancestors (c :: s) ↔ x :: d ∈ (ancestors s).map (c :: ·) := by
            rw [ancestors]
            split
            · simp
            · exact Iff.rfl
          rw [hiff, hmap]
          constructor
          · rintro ⟨e, he, h⟩
            cases h
            exact ⟨rfl, he⟩
          · rintro ⟨rfl, h⟩
            exact ⟨d, h, rfl⟩

theorem notMem_ancestors_self (p : Bytes) : p ∉ ancestors p := by
  intro h
  have hlength := (mem_ancestors.1 h).length_le
  rw [List.length_append, List.length_singleton] at hlength
  omega

/-- The directories come from the outermost. -/
theorem pairwise_ancestors (p : Bytes) :
    (ancestors p).Pairwise fun d e => d.length < e.length := by
  induction p with
  | nil => exact List.Pairwise.nil
  | cons c s ih =>
      have hbelow : ((ancestors s).map (c :: ·)).Pairwise fun d e => d.length < e.length := by
        rw [List.pairwise_map]
        exact ih.imp fun h => by simpa using h
      rw [ancestors]
      split
      · refine List.pairwise_cons.2 ⟨fun e he => ?_, hbelow⟩
        obtain ⟨d, -, rfl⟩ := List.mem_map.1 he
        simp
      · exact hbelow

/-- Among the directories of a path, those of one of them come before it. -/
theorem mem_of_ancestors_eq {p d e : Bytes} {before after : List Bytes}
    (h : ancestors p = before ++ d :: after) (he : e ∈ ancestors d) : e ∈ before := by
  have hd : d ∈ ancestors p := h ▸ List.mem_append_right _ List.mem_cons_self
  have hshort : e.length < d.length := by
    have hprefix := (mem_ancestors.1 he).length_le
    rw [List.length_append, List.length_singleton] at hprefix
    omega
  have hmem : e ∈ ancestors p := by
    refine mem_ancestors.2 ((mem_ancestors.1 he).trans ?_)
    exact (List.prefix_append d [slash]).trans (mem_ancestors.1 hd)
  have hsorted := pairwise_ancestors p
  rw [h] at hmem hsorted
  rcases List.mem_append.1 hmem with hbefore | hafter
  · exact hbefore
  · rcases List.mem_cons.1 hafter with rfl | hafter
    · omega
    · have hlong := List.rel_of_pairwise_cons (List.pairwise_append.1 hsorted).2.1 hafter
      omega

inductive Node where
  | dir
  | file (content : Bytes)
  deriving DecidableEq

def Node.content : Node → Option Bytes
  | .dir => none
  | .file content => some content

structure FileTree where
  nodes : OrdMap Bytes Node
  closed : ∀ p ∈ nodes.keys, ∀ d ∈ ancestors p, nodes.find? d = some .dir
  nulFree : ∀ p ∈ nodes.keys, (0 : UInt8) ∉ p

namespace FileTree

theorem closed_empty : ∀ p ∈ (OrdMap.empty : OrdMap Bytes Node).keys, ∀ d ∈ ancestors p,
    (OrdMap.empty : OrdMap Bytes Node).find? d = some .dir :=
  fun _ h => absurd h List.not_mem_nil

theorem nulFree_empty : ∀ p ∈ (OrdMap.empty : OrdMap Bytes Node).keys, (0 : UInt8) ∉ p :=
  fun _ h => absurd h List.not_mem_nil

def get (t : FileTree) (p : Bytes) : Option Node := t.nodes.find? p

/-- The content of a regular file. -/
def content (t : FileTree) (p : Bytes) : Option Bytes := (t.get p).bind Node.content

theorem content_eq_some {t : FileTree} {p c : Bytes} :
    t.content p = some c ↔ t.get p = some (.file c) := by
  rw [content]
  cases t.get p with
  | none => exact ⟨nofun, nofun⟩
  | some n =>
      cases n with
      | dir => exact ⟨nofun, nofun⟩
      | file c' => simp [Node.content]

/-- The regular files, each with its content. -/
def files (t : FileTree) : List (Bytes × Bytes) :=
  t.nodes.entries.filterMap fun e => e.2.content.map fun c => (e.1, c)

theorem mem_files {t : FileTree} {p c : Bytes} : (p, c) ∈ t.files ↔ t.content p = some c := by
  have hentry : (p, Node.file c) ∈ t.nodes.entries ↔ t.get p = some (.file c) := OrdMap.mem_entries
  rw [content_eq_some, ← hentry, files, List.mem_filterMap]
  constructor
  · rintro ⟨⟨q, n⟩, hmem, h⟩
    cases n with
    | dir => cases h
    | file c' =>
        cases h
        exact hmem
  · exact fun h => ⟨_, h, rfl⟩

theorem nodup_files (t : FileTree) : (t.files.map Prod.fst).Nodup := by
  have hsub : (t.files.map Prod.fst).Sublist t.nodes.keys := by
    rw [files, OrdMap.keys]
    generalize t.nodes.entries = es
    induction es with
    | nil => exact List.Sublist.refl _
    | cons e es ih =>
        obtain ⟨p, n⟩ := e
        cases n with
        | dir => exact ih.cons p
        | file c => exact ih.cons_cons p
  exact hsub.nodup t.nodes.keys_nodup

/-- A node is put where nothing, or a regular file, is. -/
def put (p : Bytes) (n : Node) (t : FileTree) : Option FileTree :=
  if h : (∀ d ∈ ancestors p, t.get d = some .dir) ∧ t.get p ≠ some .dir ∧ (0 : UInt8) ∉ p then
    some
      { nodes := t.nodes.insert p n
        closed := by
          intro q hq d hd
          rw [OrdMap.find?_insert]
          split
          · next hdp =>
              rcases OrdMap.mem_keys_insert.1 hq with rfl | hq
              · exact absurd (hdp ▸ hd) (notMem_ancestors_self q)
              · exact absurd (t.closed q hq d hd) (hdp ▸ h.2.1)
          · rcases OrdMap.mem_keys_insert.1 hq with rfl | hq
            · exact h.1 d hd
            · exact t.closed q hq d hd
        nulFree := by
          intro q hq
          rcases OrdMap.mem_keys_insert.1 hq with rfl | hq
          · exact h.2.2
          · exact t.nulFree q hq }
  else none

theorem get_put {t t' : FileTree} {p q : Bytes} {n : Node} (h : t.put p n = some t') :
    t'.get q = if q = p then some n else t.get q := by
  rw [put] at h
  split at h
  · cases h
    rw [get, OrdMap.find?_insert]
    by_cases hq : q = p
    · rw [if_pos hq, if_pos hq]
    · rw [if_neg hq, if_neg hq]
      rfl
  · cases h

theorem content_put {t t' : FileTree} {p q : Bytes} {n : Node} (h : t.put p n = some t') :
    t'.content q = if q = p then n.content else t.content q := by
  rw [content, content, get_put h]
  split
  · rfl
  · rfl

/-! ## Calls -/

/-- Which calls fail. A copy that fails leaves its target alone, or something in it. -/
structure Disk where
  mkdirFails : Bytes → Bool
  copyFails : Bytes → Option (Bytes × Option Bytes)

/-- Nothing fails. -/
def Disk.sound : Disk := ⟨fun _ => false, fun _ => none⟩

/-- `create_directories`, one directory after the other. -/
def makeDirs (disk : Disk) : List Bytes → FileTree → Bool × FileTree
  | [], t => (true, t)
  | d :: ds, t =>
      match t.get d with
      | some .dir => makeDirs disk ds t
      | some (.file _) => (false, t)
      | none =>
          if disk.mkdirFails d then (false, t)
          else
            match t.put d .dir with
            | none => (false, t)
            | some t => makeDirs disk ds t

/-- `copy_file` with `overwrite_existing`: the message of the error, if there is one. -/
def copyFile (disk : Disk) (source target : Bytes) (t : FileTree) : Option Bytes × FileTree :=
  match t.get source with
  | some (.file content) =>
      match disk.copyFails target with
      | some (message, none) => (some message, t)
      | some (message, some left) => (some message, (t.put target (.file left)).getD t)
      | none =>
          match t.put target (.file content) with
          | none => (some (bytes "Operation not supported"), t)
          | some t => (none, t)
  | _ => (some (bytes "Operation not supported"), t)

/-- Making directories changes nothing that is there. -/
theorem get_makeDirs (disk : Disk) (ds : List Bytes) {t : FileTree} {p : Bytes} {n : Node}
    (h : t.get p = some n) : (makeDirs disk ds t).2.get p = some n := by
  induction ds generalizing t with
  | nil => exact h
  | cons d ds ih =>
      rw [makeDirs]
      split
      · exact ih h
      · exact h
      · next hnone =>
          split
          · exact h
          · split
            · exact h
            · next t' hput =>
                refine ih ?_
                rw [get_put hput, if_neg, h]
                rintro rfl
                rw [hnone] at h
                cases h

/-- And makes directories only. -/
theorem content_makeDirs (disk : Disk) (ds : List Bytes) (t : FileTree) (p : Bytes) :
    (makeDirs disk ds t).2.content p = t.content p := by
  induction ds generalizing t with
  | nil => rfl
  | cons d ds ih =>
      rw [makeDirs]
      split
      · exact ih t
      · rfl
      · next hnone =>
          split
          · rfl
          · split
            · rfl
            · next t' hput =>
                rw [ih, content_put hput]
                split
                · next heq => rw [heq, content, hnone]; rfl
                · rfl

theorem get_copyFile_of_ne {disk : Disk} {source target : Bytes} {t : FileTree} {p : Bytes}
    (h : p ≠ target) : (copyFile disk source target t).2.get p = t.get p := by
  have hput : ∀ {n t'}, t.put target n = some t' → t'.get p = t.get p := by
    intro n t' hput
    rw [get_put hput, if_neg h]
  rw [copyFile]
  split
  · split
    · rfl
    · cases hleft : t.put target _ with
      | none => rfl
      | some t' => exact hput hleft
    · split
      · rfl
      · next hdone => exact hput hdone
  · rfl

/-- A copy without an error is one. -/
theorem content_copyFile (disk : Disk) (source target : Bytes) {t : FileTree}
    (h : (copyFile disk source target t).1 = none) :
    (copyFile disk source target t).2.content target = t.content source := by
  rw [copyFile] at h ⊢
  split at h
  · next content hsource =>
      have hcontent : t.content source = some content := content_eq_some.2 hsource
      split at h
      · cases h
      · cases h
      · split at h
        · cases h
        · next t' hput =>
            rw [hcontent, content_put hput, if_pos rfl]
            rfl
  · cases h

/-! ## Calls that succeed -/

/-- There is room for a file at the path. -/
structure Room (t : FileTree) (p : Bytes) : Prop where
  dirs : ∀ d ∈ ancestors p, t.get d = none ∨ t.get d = some .dir
  notDir : t.get p ≠ some .dir
  nulFree : (0 : UInt8) ∉ p

/-- What making directories does at a path. -/
theorem get_makeDirs_cases (disk : Disk) (ds : List Bytes) (t : FileTree) (p : Bytes) :
    (makeDirs disk ds t).2.get p = t.get p ∨
      p ∈ ds ∧ (makeDirs disk ds t).2.get p = some .dir := by
  induction ds generalizing t with
  | nil => exact .inl rfl
  | cons d ds ih =>
      have hrest : ∀ u : FileTree, (makeDirs disk ds u).2.get p = u.get p ∨
          p ∈ d :: ds ∧ (makeDirs disk ds u).2.get p = some .dir := fun u =>
        (ih u).imp_right fun h => ⟨List.mem_cons_of_mem _ h.1, h.2⟩
      rw [makeDirs]
      split
      · exact hrest t
      · exact .inl rfl
      · split
        · exact .inl rfl
        · split
          · exact .inl rfl
          · next t' hput =>
              rcases hrest t' with hkept | hmade
              · by_cases hp : p = d
                · refine .inr ⟨hp ▸ List.mem_cons_self, ?_⟩
                  rw [hkept, get_put hput, if_pos hp]
                · refine .inl ?_
                  rw [hkept, get_put hput, if_neg hp]
              · exact .inr hmade

/-- On a disk without faults the directories of a path can be made, one after the other. -/
theorem makeDirs_ok {disk : Disk} {ds : List Bytes} {t : FileTree}
    (hdisk : ∀ d, disk.mkdirFails d = false)
    (hroom : ∀ d ∈ ds, t.get d = none ∨ t.get d = some .dir) (hnul : ∀ d ∈ ds, (0 : UInt8) ∉ d)
    (horder : ∀ before d after, ds = before ++ d :: after →
      ∀ e ∈ ancestors d, e ∈ before ∨ t.get e = some .dir) :
    (makeDirs disk ds t).1 = true ∧ ∀ d ∈ ds, (makeDirs disk ds t).2.get d = some .dir := by
  induction ds generalizing t with
  | nil => exact ⟨rfl, fun _ hd => (nomatch hd)⟩
  | cons d ds ih =>
      have hstep : ∀ u : FileTree, u.get d = some .dir → (∀ x, x ≠ d → u.get x = t.get x) →
          (makeDirs disk ds u).1 = true ∧
            ∀ x ∈ d :: ds, (makeDirs disk ds u).2.get x = some .dir := by
        intro u hdir hothers
        have hu : ∀ x, t.get x = some .dir → u.get x = some .dir := by
          intro x hx
          by_cases hxd : x = d
          · rw [hxd, hdir]
          · rw [hothers x hxd, hx]
        obtain ⟨hok, hdirs⟩ := ih (t := u)
          (fun x hx => by
            by_cases hxd : x = d
            · exact .inr (hxd ▸ hdir)
            · rw [hothers x hxd]
              exact hroom x (List.mem_cons_of_mem _ hx))
          (fun x hx => hnul x (List.mem_cons_of_mem _ hx))
          (fun before x after hds e he => by
            rcases horder (d :: before) x after (by rw [hds]; rfl) e he with hmem | hthere
            · rcases List.mem_cons.1 hmem with rfl | hmem
              · exact .inr hdir
              · exact .inl hmem
            · exact .inr (hu e hthere))
        refine ⟨hok, fun x hx => ?_⟩
        rcases List.mem_cons.1 hx with rfl | hx
        · exact get_makeDirs disk _ hdir
        · exact hdirs x hx
      rw [makeDirs]
      rcases hroom d List.mem_cons_self with hnone | hdir
      · have hput : (∀ e ∈ ancestors d, t.get e = some .dir) ∧ t.get d ≠ some .dir ∧
            (0 : UInt8) ∉ d := by
          refine ⟨fun e he => ?_, by rw [hnone]; exact nofun, hnul d List.mem_cons_self⟩
          exact (horder [] d ds rfl e he).resolve_left List.not_mem_nil
        have hputs : t.put d .dir = some _ := dif_pos hput
        simp only [hnone, hdisk, Bool.false_eq_true, if_false, hputs]
        refine hstep _ ?_ fun x hx => ?_
        · rw [get_put hputs, if_pos rfl]
        · rw [get_put hputs, if_neg hx]
      · simp only [hdir]
        exact hstep t hdir fun _ _ => rfl

/-- And then a file can be copied to it. -/
theorem Room.makeDirs {t : FileTree} {p : Bytes} (h : t.Room p) (disk : Disk)
    (hdisk : ∀ d, disk.mkdirFails d = false) :
    (t.makeDirs disk (ancestors p)).1 = true ∧
      (∀ d ∈ ancestors p, (t.makeDirs disk (ancestors p)).2.get d = some .dir) ∧
      (t.makeDirs disk (ancestors p)).2.get p ≠ some .dir := by
  obtain ⟨hok, hdirs⟩ := makeDirs_ok hdisk h.dirs
    (fun d hd hzero => h.nulFree ((mem_ancestors.1 hd).subset (List.mem_append_left _ hzero)))
    (fun before d after hds e he => .inl (mem_of_ancestors_eq hds he))
  refine ⟨hok, hdirs, ?_⟩
  rcases get_makeDirs_cases disk (ancestors p) t p with hkept | hmade
  · rw [hkept]
    exact h.notDir
  · exact absurd hmade.1 (notMem_ancestors_self p)

theorem copyFile_ok {disk : Disk} {source target content : Bytes} {t : FileTree}
    (hdisk : disk.copyFails target = none) (hsource : t.content source = some content)
    (hdirs : ∀ d ∈ ancestors target, t.get d = some .dir) (htarget : t.get target ≠ some .dir)
    (hnul : (0 : UInt8) ∉ target) : (copyFile disk source target t).1 = none := by
  have hput : t.put target (.file content) = some _ := dif_pos ⟨hdirs, htarget, hnul⟩
  rw [copyFile, content_eq_some.1 hsource]
  simp only [hdisk, hput]

end FileTree

end Nazg.Lib

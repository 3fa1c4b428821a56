import Mathlib.Data.Set.Function
import Nazg.Brain.Snapshotter
import Nazg.Lib.PrefixCode

/-!
# Which edits change the hash of a tree

Two trees with the same files have the same hash. The converse fails in three ways: the
filter looks for `.o`, `.a` and `.so` anywhere in a path and for `build-` at its beginning,
and so hides files that are no build results; a file that is not read has no hash; and a
path may itself begin with the entry of another file.

`noticed_iff` is about two trees of which neither of the last two is true.
-/

namespace Nazg.Brain

open Lib Workspace

/-! ## The files that count -/

/-- The build, VCS and dependency directories. -/
def inExcludedDirectory (path : Bytes) : Bool :=
  startsWith (bytes "build/") path ||
    (startsWith (bytes "build-") path && contains (bytes "/") path) ||
    contains (bytes ".cmake/") path ||
    startsWith (bytes ".git/") path || startsWith (bytes ".svn/") path ||
    startsWith (bytes "node_modules/") path ||
    (startsWith (bytes "target/") path && contains (bytes "rust") path)

/-- A file that no edit of may go unnoticed. -/
def Counted (path : Bytes) : Prop :=
  inExcludedDirectory path = false ∧
    extension path ∉ [bytes ".o", bytes ".a", bytes ".so"]

/-- What is hashed. -/
structure Scan where
  tree : FileTree
  reading : Reading
  allocated : Bool

namespace Scan

variable (sha : Sha256)

def files (s : Scan) : List FileInfo := scanFiles sha s.reading s.tree

def treeHash (s : Scan) : Bytes := computeTreeHash sha s.allocated (s.files sha)

/-- The scan comes to every file that the filter keeps and reads it. -/
structure Complete (s : Scan) : Prop where
  allocated : s.allocated = true
  whole : ∀ p c, shouldExclude p = false → s.tree.content p = some c →
    s.reading.reached p = true ∧ s.reading.readable p = true

/-- No path of the one tree begins with the entry of a file of the other. -/
def Apart (s₁ s₂ : Scan) : Prop :=
  ∀ p c q e, shouldExclude p = false → s₁.tree.content p = some c →
    shouldExclude q = false → s₂.tree.content q = some e →
    ¬ p ++ 58 :: toHex (sha.digest c) <+: q

/-- The same files, of those that the filter keeps. -/
def SameKept (s₁ s₂ : Scan) : Prop :=
  ∀ p, shouldExclude p = false → s₁.tree.content p = s₂.tree.content p

/-- The same files, of those that count. -/
def SameCounted (s₁ s₂ : Scan) : Prop :=
  ∀ p, Counted p → s₁.tree.content p = s₂.tree.content p

/-- The trees have the same hash only if they have the same files. -/
def Noticed (s₁ s₂ : Scan) : Prop := s₁.treeHash sha = s₂.treeHash sha → SameCounted s₁ s₂

/-- What is digested: the contents, and all entries together. -/
def digested (s : Scan) : Set Bytes :=
  {x | (∃ p, s.tree.content p = some x) ∨ x = (s.files sha).flatMap FileInfo.entry}

variable {sha} {s s₁ s₂ : Scan}

theorem mem_files {f : FileInfo} : f ∈ s.files sha ↔
    ∃ c, s.tree.content f.path = some c ∧ s.reading.reached f.path = true ∧
      shouldExclude f.path = false ∧ f = fileInfo sha s.reading (f.path, c) := by
  rw [files, scanFiles, (List.mergeSort_perm _ _).mem_iff, List.mem_map]
  constructor
  · rintro ⟨⟨p, c⟩, hmem, rfl⟩
    obtain ⟨hfile, hkept⟩ := List.mem_filter.1 hmem
    rw [Bool.and_eq_true, Bool.not_eq_true'] at hkept
    exact ⟨c, FileTree.mem_files.1 hfile, hkept.1, hkept.2, rfl⟩
  · rintro ⟨c, hfile, hreached, hkept, heq⟩
    refine ⟨(f.path, c), List.mem_filter.2 ⟨FileTree.mem_files.2 hfile, ?_⟩, heq.symm⟩
    rw [Bool.and_eq_true, Bool.not_eq_true']
    exact ⟨hreached, hkept⟩

theorem pairwise_files : (s.files sha).Pairwise fun f g => f.path < g.path := by
  have hnodup : ((s.files sha).map FileInfo.path).Nodup := by
    rw [files, scanFiles, ((List.mergeSort_perm _ _).map _).nodup_iff, List.map_map]
    exact s.tree.nodup_files.sublist (List.filter_sublist.map Prod.fst)
  have hsorted : (s.files sha).Pairwise fun f g => f.path ≤ g.path := by
    have htrans : ∀ f g k : FileInfo, decide (f.path ≤ g.path) = true →
        decide (g.path ≤ k.path) = true → decide (f.path ≤ k.path) = true := by
      intro f g k hfg hgk
      exact decide_eq_true ((of_decide_eq_true hfg).trans (of_decide_eq_true hgk))
    have htotal : ∀ f g : FileInfo, (decide (f.path ≤ g.path) || decide (g.path ≤ f.path)) = true := by
      intro f g
      simpa using le_total f.path g.path
    exact (List.pairwise_mergeSort htrans htotal _).imp fun hle => of_decide_eq_true hle
  exact hsorted.imp₂ (fun f g hle hne => lt_of_le_of_ne hle hne) (List.pairwise_map.1 hnodup)

/-- A complete scan has every file that the filter keeps, with its hash. -/
theorem Complete.mem_files (sha : Sha256) (h : s.Complete) {p c : Bytes} (hkept : shouldExclude p = false)
    (hcontent : s.tree.content p = some c) : ⟨p, c.length, toHex (sha.digest c)⟩ ∈ s.files sha := by
  obtain ⟨hreached, hreadable⟩ := h.whole p c hkept hcontent
  refine Scan.mem_files.2 ⟨c, hcontent, hreached, hkept, ?_⟩
  simp [fileInfo, hreadable]

theorem Complete.of_mem_files (h : s.Complete) {f : FileInfo} (hf : f ∈ s.files sha) :
    ∃ c, shouldExclude f.path = false ∧ s.tree.content f.path = some c ∧
      f.size = c.length ∧ f.hash = toHex (sha.digest c) := by
  obtain ⟨c, hcontent, -, hkept, heq⟩ := Scan.mem_files.1 hf
  have hreadable := (h.whole _ c hkept hcontent).2
  refine ⟨c, hkept, hcontent, ?_, ?_⟩
  · rw [heq]
    rfl
  · rw [heq]
    simp [fileInfo, hreadable]

/-- The same files have the same hash. -/
theorem SameKept.treeHash (h : SameKept s₁ s₂) (h₁ : s₁.Complete) (h₂ : s₂.Complete) :
    s₁.treeHash sha = s₂.treeHash sha := by
  have hsub : ∀ {s s' : Scan}, SameKept s s' → s.Complete → s'.Complete →
      ∀ f ∈ s.files sha, f ∈ s'.files sha := by
    intro s s' hsame hs hs' f hf
    obtain ⟨c, hkept, hcontent, hsize, hhash⟩ := hs.of_mem_files hf
    have hmem := hs'.mem_files sha hkept ((hsame _ hkept).symm.trans hcontent)
    rwa [← hsize, ← hhash] at hmem
  have hsymm : SameKept s₂ s₁ := fun p hp => (h p hp).symm
  have hfiles : s₁.files sha = s₂.files sha := by
    refine List.Perm.eq_of_pairwise (fun f g _ _ hfg hgf => absurd hfg (not_lt_of_gt hgf))
      pairwise_files pairwise_files ?_
    refine (List.perm_ext_iff_of_nodup ?_ ?_).2 fun f => ⟨hsub h h₁ h₂ f, hsub hsymm h₂ h₁ f⟩
    · exact pairwise_files.imp fun hlt heq => (heq ▸ hlt).ne rfl
    · exact pairwise_files.imp fun hlt heq => (heq ▸ hlt).ne rfl
  rw [Scan.treeHash, Scan.treeHash, hfiles, h₁.allocated, h₂.allocated]

/-- Entries of complete scans are framed by the colon. -/
theorem entry_eq (h : s.Complete) {f : FileInfo} (hf : f ∈ s.files sha) :
    ∃ c, shouldExclude f.path = false ∧ s.tree.content f.path = some c ∧
      f.entry = f.path ++ 58 :: toHex (sha.digest c) := by
  obtain ⟨c, hkept, hcontent, -, hhash⟩ := h.of_mem_files hf
  exact ⟨c, hkept, hcontent, by rw [FileInfo.entry, hhash]⟩

theorem length_toHex_digest (c : Bytes) : (toHex (sha.digest c)).length = 64 := by
  rw [length_toHex, sha.length_digest]

theorem framed_eq {p q c e : Bytes}
    (hbegins : p ++ 58 :: toHex (sha.digest c) <+: q ++ 58 :: toHex (sha.digest e))
    (hapart : ¬ p ++ 58 :: toHex (sha.digest c) <+: q) :
    p = q ∧ sha.digest c = sha.digest e := by
  have hcolon : (58 : UInt8) ∉ toHex (sha.digest c) := fun hmem => (of_mem_toHex hmem).1 rfl
  have hlength : (toHex (sha.digest c)).length = (toHex (sha.digest e)).length := by
    rw [length_toHex_digest, length_toHex_digest]
  obtain ⟨hpath, hhex⟩ := (framed_begins hcolon hlength hbegins).resolve_left hapart
  refine ⟨hpath, ?_⟩
  have hread := congrArg readHexBytes hhex
  rw [readHexBytes_toHex, readHexBytes_toHex] at hread
  exact Option.some.inj hread

/-- If no path begins with an entry, the entries can be told apart. -/
theorem separated (h₁ : s₁.Complete) (h₂ : s₂.Complete) (h₁₂ : Apart sha s₁ s₂)
    (h₂₁ : Apart sha s₂ s₁) : Separated ((s₁.files sha).map FileInfo.entry)
      ((s₂.files sha).map FileInfo.entry) := by
  intro x hx y hy hor
  obtain ⟨f, hf, rfl⟩ := List.mem_map.1 hx
  obtain ⟨g, hg, rfl⟩ := List.mem_map.1 hy
  obtain ⟨c, hkeptf, hcontentf, hfentry⟩ := entry_eq h₁ hf
  obtain ⟨e, hkeptg, hcontentg, hgentry⟩ := entry_eq h₂ hg
  rw [hfentry, hgentry] at hor ⊢
  rcases hor with hbegins | hbegins
  · obtain ⟨hpath, hdigest⟩ := framed_eq hbegins (h₁₂ _ c _ e hkeptf hcontentf hkeptg hcontentg)
    rw [hpath, hdigest]
  · obtain ⟨hpath, hdigest⟩ := framed_eq hbegins (h₂₁ _ e _ c hkeptg hcontentg hkeptf hcontentf)
    rw [hpath, hdigest]

/-- A file of the one tree whose entry is one of the other. -/
theorem content_of_entries (h₁ : s₁.Complete) (h₂ : s₂.Complete) (h₂₁ : Apart sha s₂ s₁)
    (hinj : Set.InjOn sha.digest (s₁.digested sha ∪ s₂.digested sha))
    (hsub : ∀ x ∈ (s₁.files sha).map FileInfo.entry, x ∈ (s₂.files sha).map FileInfo.entry)
    {p c : Bytes} (hp : shouldExclude p = false) (hc : s₁.tree.content p = some c) :
    s₂.tree.content p = some c := by
  have hmem := hsub _ (List.mem_map_of_mem (h₁.mem_files sha hp hc))
  obtain ⟨g, hg, heq⟩ := List.mem_map.1 hmem
  obtain ⟨e, hkept, hcontent, hentry⟩ := entry_eq h₂ hg
  rw [hentry] at heq
  have hbegins : g.path ++ 58 :: toHex (sha.digest e) <+: p ++ 58 :: toHex (sha.digest c) := by
    rw [heq]
    exact List.prefix_refl _
  obtain ⟨hpath, hdigest⟩ := framed_eq hbegins (h₂₁ _ e _ c hkept hcontent hp hc)
  have hsame := hinj (.inr (.inl ⟨_, hcontent⟩)) (.inl (.inl ⟨_, hc⟩)) hdigest
  rwa [hpath, hsame] at hcontent

/-- Then the same hash is that of the same files, as far as the filter keeps them. -/
theorem sameKept_of_treeHash (h₁ : s₁.Complete) (h₂ : s₂.Complete) (h₁₂ : Apart sha s₁ s₂)
    (h₂₁ : Apart sha s₂ s₁) (hinj : Set.InjOn sha.digest (s₁.digested sha ∪ s₂.digested sha))
    (h : s₁.treeHash sha = s₂.treeHash sha) : SameKept s₁ s₂ := by
  have hdigest : sha.digest ((s₁.files sha).flatMap FileInfo.entry) =
      sha.digest ((s₂.files sha).flatMap FileInfo.entry) := by
    rw [Scan.treeHash, Scan.treeHash, computeTreeHash, computeTreeHash, if_pos h₁.allocated,
      if_pos h₂.allocated] at h
    have hread := congrArg readHexBytes h
    rw [readHexBytes_toHex, readHexBytes_toHex] at hread
    exact Option.some.inj hread
  have hflat := hinj (.inl (.inr rfl)) (.inr (.inr rfl)) hdigest
  rw [List.flatMap_def, List.flatMap_def] at hflat
  have hnonempty : ∀ {s : Scan}, ∀ x ∈ (s.files sha).map FileInfo.entry, x ≠ [] := by
    intro s x hx
    obtain ⟨f, -, rfl⟩ := List.mem_map.1 hx
    exact List.append_ne_nil_of_right_ne_nil _ (List.cons_ne_nil _ _)
  have hentries := (separated h₁ h₂ h₁₂ h₂₁).eq_of_flatten_eq hnonempty hnonempty hflat
  intro p hp
  refine Option.ext fun c => ⟨fun hc => ?_, fun hc => ?_⟩
  · exact content_of_entries h₁ h₂ h₂₁ hinj (fun x hx => hentries ▸ hx) hp hc
  · exact content_of_entries h₂ h₁ h₁₂ (Set.union_comm _ _ ▸ hinj) (fun x hx => hentries ▸ hx) hp hc

/-- Two trees that are read completely and whose entries can be told apart: they can have
the same hash and different files exactly by files that the filter hides. -/
theorem noticed_iff (h₁ : s₁.Complete) (h₂ : s₂.Complete) (h₁₂ : Apart sha s₁ s₂)
    (h₂₁ : Apart sha s₂ s₁) (hinj : Set.InjOn sha.digest (s₁.digested sha ∪ s₂.digested sha)) :
    Noticed sha s₁ s₂ ↔ (SameKept s₁ s₂ → SameCounted s₁ s₂) := by
  constructor
  · exact fun h hsame => h (hsame.treeHash h₁ h₂)
  · exact fun h hhash => h (sameKept_of_treeHash h₁ h₂ h₁₂ h₂₁ hinj hhash)

end Scan

/-! ## Trees with one source file -/

/-- The SHA-256 of `return 1;`. -/
def digestOfOne : Bytes :=
  [245, 139, 124, 58, 246, 33, 181, 42, 43, 183, 220, 103, 212, 73, 31, 154, 182, 198, 209, 110,
    60, 250, 30, 70, 230, 112, 255, 79, 154, 48, 31, 220]

/-- The SHA-256 of `return 2;`. -/
def digestOfTwo : Bytes :=
  [73, 3, 187, 51, 222, 1, 10, 221, 242, 109, 6, 68, 245, 48, 143, 12, 32, 86, 73, 171, 215, 63,
    161, 171, 253, 73, 137, 217, 135, 184, 236, 226]

/-- Some values of SHA-256: those of three files, and of the entries of the first two. -/
def knownDigests : List (Bytes × Bytes) :=
  [(bytes "return 1;", digestOfOne), (bytes "return 2;", digestOfTwo),
    (bytes "Install",
      [86, 156, 164, 159, 74, 175, 120, 70, 233, 82, 193, 212, 174, 202, 114, 254, 189, 11, 121, 250,
        28, 79, 157, 176, 143, 211, 18, 117, 81, 33, 133, 114]),
    (bytes "main.cpp:" ++ toHex digestOfOne,
      [215, 40, 82, 197, 4, 203, 42, 235, 197, 9, 243, 232, 162, 91, 173, 128, 152, 254, 18, 73, 192,
        45, 152, 27, 217, 100, 117, 77, 114, 149, 146, 251]),
    (bytes "main.cpp:" ++ toHex digestOfTwo,
      [5, 98, 128, 67, 101, 223, 172, 148, 28, 27, 8, 96, 84, 188, 145, 133, 36, 18, 66, 68, 178, 74,
        224, 189, 183, 235, 56, 22, 85, 233, 26, 69])]

def knownSha : Sha256 where
  digest s := ((knownDigests.find? fun e => e.1 = s).map Prod.snd).getD (List.replicate 32 0)
  length_digest s := by
    have hknown : ∀ e ∈ knownDigests, e.2.length = 32 := by decide +kernel
    cases hfind : knownDigests.find? fun e => e.1 = s with
    | none => rfl
    | some e => exact hknown e (List.mem_of_find?_eq_some hfind)

theorem injOn_knownSha : Set.InjOn knownSha.digest {x | x ∈ knownDigests.map Prod.fst} := by
  have hnodup : (knownDigests.map Prod.snd).Nodup := by decide +kernel
  have hdigest : ∀ x ∈ knownDigests.map Prod.fst,
      ∃ e ∈ knownDigests, e.1 = x ∧ knownSha.digest x = e.2 := by
    intro x hx
    obtain ⟨e, he, rfl⟩ := List.mem_map.1 hx
    cases hfind : knownDigests.find? fun e' => e'.1 = e.1 with
    | none => simpa using List.find?_eq_none.1 hfind e he
    | some e' =>
        refine ⟨e', List.mem_of_find?_eq_some hfind, by simpa using List.find?_some hfind, ?_⟩
        show ((knownDigests.find? fun e' => e'.1 = e.1).map Prod.snd).getD _ = _
        rw [hfind]
        rfl
  intro x hx y hy heq
  obtain ⟨e, he, rfl, hxe⟩ := hdigest x hx
  obtain ⟨e', he', rfl, hye⟩ := hdigest y hy
  rw [hxe, hye] at heq
  rw [List.inj_on_of_nodup_map hnodup he he' heq]

/-- A tree of files in its root. -/
def treeOf (files : List (Bytes × Bytes)) : FileTree :=
  files.foldl (fun t f => (t.put f.1 (.file f.2)).getD t)
    { nodes := .empty, closed := FileTree.closed_empty, nulFree := FileTree.nulFree_empty }

def scanOf (files : List (Bytes × Bytes)) : Scan := ⟨treeOf files, .whole, true⟩

def sourceScan : Scan := scanOf [(bytes "main.cpp", bytes "return 1;")]

def editedScan : Scan := scanOf [(bytes "main.cpp", bytes "return 2;")]

def documentedScan : Scan :=
  scanOf [(bytes "main.cpp", bytes "return 1;"), (bytes "README.adoc", bytes "Install")]

theorem complete_scanOf (files : List (Bytes × Bytes)) : (scanOf files).Complete :=
  ⟨rfl, fun _ _ _ _ => ⟨rfl, rfl⟩⟩

theorem files_scanOf {sha : Sha256} {files : List (Bytes × Bytes)} (file : Bytes × Bytes)
    (hkept : (treeOf files).files.filter (fun f => !shouldExclude f.1) = [file]) :
    (scanOf files).files sha = [fileInfo sha .whole file] := by
  have hfilter : (treeOf files).files.filter (fun f => (scanOf files).reading.reached f.1 &&
      !shouldExclude f.1) = [file] := hkept
  rw [Scan.files, scanFiles]
  show List.mergeSort (((treeOf files).files.filter _).map _) _ = _
  rw [hfilter, List.map_singleton, List.mergeSort_singleton]
  rfl

/-- Of a tree in which the filter keeps one file, everything is known that is digested. -/
theorem digested_subset {files : List (Bytes × Bytes)} (file : Bytes × Bytes)
    (hkept : (treeOf files).files.filter (fun f => !shouldExclude f.1) = [file])
    (hcontents : ∀ f ∈ (treeOf files).files, f.2 ∈ knownDigests.map Prod.fst)
    (hentry : (fileInfo knownSha .whole file).entry ∈ knownDigests.map Prod.fst) :
    (scanOf files).digested knownSha ⊆ {x | x ∈ knownDigests.map Prod.fst} := by
  rintro x (⟨p, hp⟩ | rfl)
  · exact hcontents (p, x) (FileTree.mem_files.2 hp)
  · show ((scanOf files).files knownSha).flatMap FileInfo.entry ∈ knownDigests.map Prod.fst
    rw [files_scanOf _ hkept, List.flatMap_singleton]
    exact hentry

theorem digested_sourceScan :
    sourceScan.digested knownSha ⊆ {x | x ∈ knownDigests.map Prod.fst} :=
  digested_subset (bytes "main.cpp", bytes "return 1;") (by decide +kernel)
    (by decide +kernel) (by decide +kernel)

theorem digested_editedScan :
    editedScan.digested knownSha ⊆ {x | x ∈ knownDigests.map Prod.fst} :=
  digested_subset (bytes "main.cpp", bytes "return 2;") (by decide +kernel)
    (by decide +kernel) (by decide +kernel)

theorem digested_documentedScan :
    documentedScan.digested knownSha ⊆ {x | x ∈ knownDigests.map Prod.fst} :=
  digested_subset (bytes "main.cpp", bytes "return 1;") (by decide +kernel)
    (by decide +kernel) (by decide +kernel)

/-- No path is long enough to begin with an entry. -/
theorem apart_of_short {sha : Sha256} {s₁ s₂ : Scan}
    (h : ∀ f ∈ s₂.tree.files, f.1.length ≤ 64) : s₁.Apart sha s₂ := by
  intro p c q e _ _ _ hq hbegins
  have hlength := hbegins.length_le
  have hshort := h (q, e) (FileTree.mem_files.2 hq)
  rw [List.length_append, List.length_cons, Scan.length_toHex_digest] at hlength
  dsimp only at hshort
  omega

/-- An edit of the source file is noticed. -/
theorem noticed_iff_edited : Set.InjOn knownSha.digest
      (sourceScan.digested knownSha ∪ editedScan.digested knownSha) ∧
    Scan.Noticed knownSha sourceScan editedScan := by
  have hinj := injOn_knownSha.mono (Set.union_subset digested_sourceScan digested_editedScan)
  refine ⟨hinj, (Scan.noticed_iff (complete_scanOf _) (complete_scanOf _)
    (apart_of_short (by decide +kernel)) (apart_of_short (by decide +kernel)) hinj).2
      fun hsame => ?_⟩
  have hmain := hsame (bytes "main.cpp") (by decide +kernel)
  exact absurd hmain (by decide +kernel)

/-- A new `README.adoc` is not. -/
theorem readme_not_noticed : Set.InjOn knownSha.digest
      (sourceScan.digested knownSha ∪ documentedScan.digested knownSha) ∧
    ¬ Scan.Noticed knownSha sourceScan documentedScan := by
  refine ⟨injOn_knownSha.mono (Set.union_subset digested_sourceScan digested_documentedScan),
    fun h => ?_⟩
  have hsource : sourceScan.files knownSha = documentedScan.files knownSha :=
    (files_scanOf (bytes "main.cpp", bytes "return 1;") (by decide +kernel)).trans
      (files_scanOf _ (by decide +kernel)).symm
  have hhash : sourceScan.treeHash knownSha = documentedScan.treeHash knownSha := by
    rw [Scan.treeHash, hsource]
    rfl
  have hreadme := h hhash (bytes "README.adoc") ⟨by decide +kernel, by decide +kernel⟩
  exact absurd hreadme (by decide +kernel)

end Nazg.Brain

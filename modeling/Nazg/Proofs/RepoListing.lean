import Nazg.Git.Sync

/-!
# Which repositories lie below a directory

The listing of the store is for the paths that begin with the name of a directory and a
slash. It asks with LIKE, to which the name is a pattern: an `_` or a `%` in it stands for
other text, a letter for both of its cases, and a character of more than one byte for all of
its spellings. So it is right for the paths at hand exactly if none of them only reads like
the directory (`listsExactly_iff`), and a directory that no path can be mistaken for has
neither letters nor wildcards in its name, nor a byte beyond ASCII (`Plain`).
-/

namespace Nazg.Git

open Lib Lib.Sqlite Nexus

variable {o : RowOrder} {p path : Bytes} {t : Table BareRepoRow}

/-! ## What the listing is for -/

/-- The paths in the store. -/
def storedPaths (t : Table BareRepoRow) : List Bytes :=
  (t.data.filterMap BareRepoRow.serverPath).map Text.bytes

/-- The directory and the slash behind it, which may be there already. -/
def asDirectory (p : Bytes) : Bytes := if p.getLast? = some slash then p else p ++ [slash]

def ListsExactly (o : RowOrder) (p : Bytes) (t : Table BareRepoRow) : Prop :=
  (listBareRepoPathsWithPrefix o p t).Perm ((storedPaths t).filter fun s => asDirectory p <+: s)

/-- Every name for cgit is that of a stored path below the directory, or the store has none
and the server named it. -/
def PublishesInside (o : RowOrder) (p : Bytes) (t : Table BareRepoRow) : Prop :=
  ∀ (ssh : Bytes → Option Bytes) (cfg : ServerConfig), cfg.repoBasePath = p →
    ∀ name ∈ CgitServer.repoNames o ssh cfg (some t),
      (∃ path ∈ storedPaths t, asDirectory p <+: path ∧ fileName path = name) ∨
      CgitServer.storedNames (listBareRepoPathsWithPrefix o p t) = [] ∧
        ∃ output, ssh (CgitServer.repoDiscoveryCommand cfg) = some output ∧
          name ∈ CgitServer.discoveredNames output

/-! ## Reading like the directory -/

/-- The pattern as the engine gets it. -/
def patternText (p : Bytes) : Bytes := (Text.ofCStr (likePattern p)).bytes

def ReadsLike (p path : Bytes) : Prop := Like (readChars (patternText p)) (readChars path)

instance (p path : Bytes) : Decidable (ReadsLike p path) :=
  inferInstanceAs (Decidable (Like (readChars (patternText p)) (readChars path)))

theorem likePattern_eq (p : Bytes) : likePattern p = asDirectory p ++ bytes "%" := by
  rw [likePattern, asDirectory]
  split
  · rfl
  · rw [List.append_assoc]
    rfl

theorem asDirectory_eq (p : Bytes) : ∃ q, asDirectory p = q ++ [slash] := by
  rw [asDirectory]
  split
  · next h => exact ⟨p.dropLast, (List.dropLast_append_getLast? slash h).symm⟩
  · exact ⟨p, rfl⟩

theorem readChars_asDirectory_append (p s : Bytes) :
    readChars (asDirectory p ++ s) = readChars (asDirectory p) ++ readChars s := by
  obtain ⟨q, hq⟩ := asDirectory_eq p
  have hslash : ∀ s,
      readChars (q ++ slash :: s) = readChars q ++ slash.toUInt32 :: readChars s := by
    intro s
    rw [readChars_append q (apart_cons (by decide) s), readChars_cons_of_lt (by decide)]
  rw [hq, List.append_assoc, List.singleton_append, hslash, hslash, List.append_assoc]
  rfl

theorem mem_asDirectory {c : UInt8} (h : c ∈ asDirectory p) : c ∈ p ∨ c = slash := by
  rw [asDirectory] at h
  split at h
  · exact .inl h
  · simpa using h

theorem patternText_eq (hp : 0 ∉ p) : patternText p = asDirectory p ++ bytes "%" := by
  rw [patternText, Text.ofCStr_bytes, likePattern_eq]
  refine cstr_eq_self.2 fun h => ?_
  rcases List.mem_append.1 h with h | h
  · rcases mem_asDirectory h with h | h
    · exact hp h
    · exact absurd h (by decide)
  · exact absurd h (by decide)

theorem readChars_patternText (hp : 0 ∉ p) :
    readChars (patternText p) = readChars (asDirectory p) ++ [percent] := by
  rw [patternText_eq hp, readChars_asDirectory_append]
  rfl

theorem nulFree_of_mem (h : path ∈ storedPaths t) : 0 ∉ path := by
  obtain ⟨s, -, rfl⟩ := List.mem_map.1 h
  exact s.nulFree

theorem subset_asDirectory (p : Bytes) : p ⊆ asDirectory p := by
  rw [asDirectory]
  split
  · exact List.Subset.refl p
  · exact List.subset_append_left p _

/-- A path below the directory reads like it. -/
theorem readsLike_of_isPrefix (hpath : 0 ∉ path) (h : asDirectory p <+: path) :
    ReadsLike p path := by
  have hp : 0 ∉ p := fun hzero => hpath (h.subset (subset_asDirectory p hzero))
  obtain ⟨rest, rfl⟩ := h
  rw [ReadsLike, readChars_patternText hp, readChars_asDirectory_append]
  exact .endless _ _

/-! ## The listing -/

theorem listed_perm (hp : p ≠ []) (hfit : (patternText p).length ≤ maxLikePatternLength) :
    (listBareRepoPathsWithPrefix o p t).Perm
      ((storedPaths t).filter fun s => decide (ReadsLike p s) && decide (s ≠ [])) := by
  rw [listBareRepoPathsWithPrefix, if_neg hp]
  refine (List.Perm.of_eq (if_pos hfit)).trans ?_
  refine ((o.orderBy_perm id _).filter _).trans ?_
  rw [List.filter_filter]
  refine .of_eq (List.filter_congr fun s _ => ?_)
  rw [Bool.and_comm]
  refine congrArg (· && _) (Bool.eq_iff_iff.2 ?_)
  rw [like_iff, decide_eq_true_iff]
  rfl

theorem listed_of_long (h : maxLikePatternLength < (patternText p).length) :
    listBareRepoPathsWithPrefix o p t = [] := by
  rw [listBareRepoPathsWithPrefix]
  split
  · rfl
  · exact if_neg (Nat.not_le.2 h)

theorem filter_perm_iff {l : List Bytes} {q r : Bytes → Bool} :
    (l.filter q).Perm (l.filter r) ↔ ∀ s ∈ l, q s = r s := by
  constructor
  · intro h s hs
    have hmem := h.mem_iff (a := s)
    rw [List.mem_filter, List.mem_filter] at hmem
    rw [Bool.eq_iff_iff]
    exact ⟨fun hq => (hmem.1 ⟨hs, hq⟩).2, fun hr => (hmem.2 ⟨hs, hr⟩).2⟩
  · exact fun h => .of_eq (List.filter_congr h)

/-- No path reads like the directory but those below it, and if the pattern is too long
there are none of these. -/
structure ToldApart (p : Bytes) (t : Table BareRepoRow) : Prop where
  below : (patternText p).length ≤ maxLikePatternLength →
    ∀ path ∈ storedPaths t, path ≠ [] → ReadsLike p path → asDirectory p <+: path
  none : maxLikePatternLength < (patternText p).length →
    ∀ path ∈ storedPaths t, ¬ asDirectory p <+: path

theorem ne_nil_of_prefix (h : asDirectory p <+: path) : path ≠ [] := by
  obtain ⟨q, hq⟩ := asDirectory_eq p
  rintro rfl
  rw [hq] at h
  simpa using List.prefix_nil.1 h

theorem lists_iff (hp : p ≠ []) : ListsExactly o p t ↔ ToldApart p t := by
  rcases Nat.lt_or_ge maxLikePatternLength (patternText p).length with hlong | hfit
  · rw [ListsExactly, listed_of_long hlong]
    constructor
    · intro h
      refine ⟨fun hfit => absurd hlong (Nat.not_lt.2 hfit), fun _ path hpath hbelow => ?_⟩
      have hmem : path ∈ (storedPaths t).filter fun s => asDirectory p <+: s :=
        List.mem_filter.2 ⟨hpath, decide_eq_true hbelow⟩
      rw [h.symm.eq_nil] at hmem
      cases hmem
    · intro h
      rw [List.filter_eq_nil_iff.2 fun path hpath hbelow =>
        h.none hlong path hpath (of_decide_eq_true hbelow)]
  · have hperm := listed_perm (o := o) (t := t) hp hfit
    have hiff : ListsExactly o p t ↔ ∀ path ∈ storedPaths t,
        (decide (ReadsLike p path) && decide (path ≠ [])) = decide (asDirectory p <+: path) := by
      rw [← filter_perm_iff]
      exact ⟨hperm.symm.trans, hperm.trans⟩
    rw [hiff]
    constructor
    · intro h
      refine ⟨fun _ path hpath hne hreads => ?_, fun hlong => absurd hfit (Nat.not_le.2 hlong)⟩
      have heq := h path hpath
      rw [decide_eq_true hreads, decide_eq_true hne] at heq
      exact of_decide_eq_true heq.symm
    · intro h path hpath
      rw [Bool.eq_iff_iff, Bool.and_eq_true, decide_eq_true_iff, decide_eq_true_iff,
        decide_eq_true_iff]
      exact ⟨fun hreads => h.below hfit path hpath hreads.2 hreads.1, fun hbelow =>
        ⟨readsLike_of_isPrefix (nulFree_of_mem hpath) hbelow, ne_nil_of_prefix hbelow⟩⟩

/-- What cgit shows of a right listing lies below the directory. -/
theorem ListsExactly.publishesInside (h : ListsExactly o p t) : PublishesInside o p t := by
  rintro ssh cfg rfl name hname
  have hmem := (List.destutter_sublist _ _).subset hname
  rw [List.mem_mergeSort] at hmem
  simp only [Option.map_some, Option.getD_some] at hmem
  split at hmem
  · next hnone =>
      refine .inr ⟨hnone, ?_⟩
      cases hssh : ssh (CgitServer.repoDiscoveryCommand cfg) with
      | none =>
          rw [hssh] at hmem
          cases hmem
      | some output =>
          rw [hssh] at hmem
          exact ⟨output, rfl, hmem⟩
  · obtain ⟨path, hpath, rfl⟩ := List.mem_map.1 (List.mem_filter.1 hmem).1
    obtain ⟨hstored, hbelow⟩ := List.mem_filter.1 (h.mem_iff.1 hpath)
    exact .inl ⟨path, hstored, of_decide_eq_true hbelow, rfl⟩

/-! ## Directories that nothing else reads like -/

/-- A table with one repository. -/
def storeOf (path : Bytes) : Table BareRepoRow :=
  Table.empty.insertRow ⟨some (Text.ofCStr path)⟩

theorem storedPaths_storeOf (hpath : 0 ∉ path) : storedPaths (storeOf path) = [path] := by
  rw [storedPaths, storeOf, Table.data_insertRow]
  exact congrArg (fun s => [s]) (cstr_eq_self.2 hpath)

theorem prefix_of_readsLike (hzero : 0 ∉ p) (hp : ∀ c ∈ p, Literal c) (h : ReadsLike p path) :
    asDirectory p <+: path := by
  rw [ReadsLike, readChars_patternText hzero] at h
  exact prefix_of_like (fun c hc => (mem_asDirectory hc).elim (hp c) fun h => h ▸ by decide) h

theorem readsLike_of_like (hzero : 0 ∉ p) (h : Like (readChars (asDirectory p)) (readChars path)) :
    ReadsLike p path := by
  rw [ReadsLike, readChars_patternText hzero, ← List.append_nil (readChars path)]
  exact h.append (.run List.nil_suffix .nil)

/-- A directory is told apart from all others exactly if every byte of it stands for itself
and the pattern is not too long. -/
theorem toldApart_iff (hzero : 0 ∉ p) : (∀ t, ToldApart p t) ↔
    (patternText p).length ≤ maxLikePatternLength ∧ ∀ c ∈ p, Literal c := by
  have hzero' : 0 ∉ asDirectory p := fun h =>
    (mem_asDirectory h).elim hzero fun h => absurd h (by decide)
  constructor
  · intro h
    have hfit : (patternText p).length ≤ maxLikePatternLength := by
      by_contra hlong
      refine (h (storeOf (asDirectory p))).none (Nat.not_le.1 hlong) _ ?_ (List.prefix_refl _)
      rw [storedPaths_storeOf hzero']
      exact List.mem_singleton.2 rfl
    refine ⟨hfit, fun c hc => ?_⟩
    by_contra hliteral
    obtain ⟨path, hne, hpath, hlike, hnot⟩ :=
      exists_like_not_prefix hzero' ⟨c, subset_asDirectory p hc, hliteral⟩
    refine hnot ((h (storeOf path)).below hfit path ?_ hne (readsLike_of_like hzero hlike))
    rw [storedPaths_storeOf hpath]
    exact List.mem_singleton.2 rfl
  · rintro ⟨hfit, hp⟩ t
    exact ⟨fun _ path _ _ h => prefix_of_readsLike hzero hp h,
      fun hlong => absurd hfit (Nat.not_le.2 hlong)⟩

end Nazg.Git

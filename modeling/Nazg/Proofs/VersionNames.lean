import Nazg.Proofs.Updates

/-!
# One version, three names

An update names the version that it builds after the tag of the sources, or after their hash
with a `v` in front, and puts it in a directory of this name. `check` compares the tag or the
hash as git says it with the name of the active directory, and the listings look for a directory
in the root whose name begins with `v`. The three agree on a tag that begins with `v` and has no
slash.
-/

namespace Nazg.Update

open Lib

/-- The names listed are those in the root. -/
def Listing.Shows (listing : Listing) (s : Install) : Prop :=
  ∀ name, name ∈ listing.names ↔ 47 ∉ name ∧ (s.node [name]).isSome

/-- A name that is taken for a version when its directory lies in the root. -/
def Listable (name : Bytes) : Prop := name.head? = some 118 ∧ 2 ≤ name.length ∧ 47 ∉ name

/-- The version of these sources is what `check` takes for the latest one, and `prune_old` and
`rollback` have it among their candidates. -/
def Recognized (ref : Bytes) (gitDir : Bool) (source : Source) (listing : Listing) (s : Install) :
    Prop :=
  (check ref gitDir source s).updateAvailable = false ∧ versionName source ∈ listing.versions s

/-- The sources have a tag that begins with `v`, has at least two characters and no slash (or
such a hash, if they are not built as they are); without a `.git` the version's name is so. -/
def WellNamed (gitDir : Bool) (source : Source) : Prop :=
  if gitDir then
    Listable (detectVersionTag source) ∧ (source.localMode = true → source.tag ≠ [])
  else Listable (versionName source)

/-! ## Names -/

theorem versionDir_of_listable {name : Bytes} (h : Listable name) : versionDir name = [name] :=
  List.splitOn_eq_singleton h.2.2

/-- What `check` takes for the latest version of sources with a `.git`. -/
def latestVersion (source : Source) : Bytes :=
  if detectVersionTag source ≠ [] then detectVersionTag source
  else if source.sha ≠ [] then source.sha else bytes "unknown"

theorem latestVersion_of_ne {source : Source} (h : detectVersionTag source ≠ []) :
    latestVersion source = detectVersionTag source := if_pos h

theorem latestVersion_of_eq {source : Source} (h : detectVersionTag source = []) :
    latestVersion source = bytes "unknown" := by
  have hsha : source.sha = [] := by
    rw [detectVersionTag] at h
    split at h
    · next htag => exact absurd h htag
    · exact h
  rw [latestVersion, if_neg (not_not_intro h), if_neg (not_not_intro hsha)]

theorem versionName_of_local {source : Source} (hlocal : source.localMode = true) :
    versionName source =
      if source.tag ≠ [] then source.tag
      else if source.sha ≠ [] then bytes "v" ++ source.sha else bytes "v-local" := by
  rw [versionName, hlocal]
  rfl

theorem versionName_of_not_local {source : Source} (hlocal : source.localMode = false) :
    versionName source =
      if (detectVersionTag source).head? = some 118 then detectVersionTag source
      else bytes "v" ++ detectVersionTag source := by
  rw [versionName, hlocal]
  rfl

theorem ne_prefixed (name : Bytes) : name ≠ bytes "v" ++ name := by
  intro h
  have hlength := congrArg List.length h
  rw [List.length_append] at hlength
  have hone : (bytes "v").length = 1 := rfl
  omega

/-- The latest version is the one that was built exactly if that is named as git says it. -/
theorem latestVersion_eq_iff {source : Source} (h : Listable (versionName source)) :
    latestVersion source = versionName source ↔
      Listable (detectVersionTag source) ∧ (source.localMode = true → source.tag ≠ []) := by
  constructor
  · intro heq
    have hne : detectVersionTag source ≠ [] := by
      intro hnil
      rw [latestVersion_of_eq hnil] at heq
      rw [← heq] at h
      exact absurd h.1 (by decide)
    rw [latestVersion_of_ne hne] at heq
    refine ⟨heq ▸ h, fun hlocal htag => ?_⟩
    rw [versionName_of_local hlocal, if_neg (not_not_intro htag), detectVersionTag,
      if_neg (not_not_intro htag)] at heq
    split at heq
    · exact ne_prefixed _ heq
    · next hsha => exact hsha (fun hsha' => by
        rw [hsha'] at heq
        exact absurd heq (by decide))
  · rintro ⟨hlist, htag⟩
    have hne : detectVersionTag source ≠ [] := by
      intro hnil
      rw [hnil] at hlist
      exact absurd hlist.1 (by decide)
    rw [latestVersion_of_ne hne]
    cases hlocal : source.localMode with
    | true =>
        have htag' := htag hlocal
        rw [versionName_of_local hlocal, if_pos htag', detectVersionTag, if_pos htag']
    | false => rw [versionName_of_not_local hlocal, if_pos hlist.1]

theorem listable_versionName {gitDir : Bool} {source : Source} (h : WellNamed gitDir source) :
    Listable (versionName source) := by
  cases gitDir with
  | false => exact h
  | true =>
      obtain ⟨hlist, htag⟩ := h
      cases hlocal : source.localMode with
      | true =>
          have htag' := htag hlocal
          rw [versionName_of_local hlocal, if_pos htag']
          rwa [detectVersionTag, if_pos htag'] at hlist
      | false =>
          rw [versionName_of_not_local hlocal, if_pos hlist.1]
          exact hlist

/-! ## The version after its update -/

theorem mem_versions {listing : Listing} {s : Install} (hlisting : listing.Shows s) {name : Bytes}
    (hdir : s.node (versionDir name) = some .dir) :
    name ∈ listing.versions s ↔ Listable name := by
  have hmem : name ∈ listing.versions s ↔ name ∈ listing.names ∧ s.isVersion name = true := by
    rw [Listing.versions, (List.perm_insertionSort _ _).mem_iff, List.mem_filter]
  rw [hmem, hlisting name, Install.isVersion]
  simp only [Bool.and_eq_true, decide_eq_true_eq]
  constructor
  · rintro ⟨⟨hslash, -⟩, ⟨-, hlength⟩, hhead⟩
    exact ⟨hhead, hlength, hslash⟩
  · intro h
    rw [versionDir_of_listable h] at hdir
    exact ⟨⟨h.2.2, by rw [hdir]; rfl⟩, ⟨hdir, h.2.1⟩, h.1⟩

/-- An update that succeeds, and does not only try, has made the link to its version. -/
theorem link_updateFromSource {run : UpdateRun} {source : Source} {s : Install}
    (hsource : run.source = some source) (hdry : run.dryRun = false)
    (hok : (updateFromSource run s).1 = true) :
    (updateFromSource run s).2.link = .leadsTo (binary (versionDir (versionName source))) := by
  rcases Machine.updateFromSource_cases hsource s with ⟨-, hresult⟩ | ⟨htry, -⟩ | ⟨-, -, hresult⟩
  · rw [hresult] at hok
    cases hok
  · rw [hdry] at htry
    cases htry
  · rw [hresult] at hok ⊢
    split at hok
    · next hactivated =>
        rw [if_pos hactivated]
        exact (link_prune _ _ _).trans (link_activate hactivated)
    · cases hok

/-- After an update whose version is still there, the version is recognized exactly if it is
well named. -/
theorem recognized_iff {run : UpdateRun} {source : Source} {s : Install}
    (hsource : run.source = some source) (hdry : run.dryRun = false)
    (hok : (updateFromSource run s).1 = true)
    (hdir : (updateFromSource run s).2.node (versionDir (versionName source)) = some .dir)
    (hbinary : (updateFromSource run s).2.node (binary (versionDir (versionName source))) =
      some .whole)
    {listing : Listing} (hlisting : listing.Shows (updateFromSource run s).2) (ref : Bytes)
    (gitDir : Bool) :
    Recognized ref gitDir source listing (updateFromSource run s).2 ↔ WellNamed gitDir source := by
  have hlink := link_updateFromSource hsource hdry hok
  generalize (updateFromSource run s).2 = s' at hlink hdir hbinary hlisting
  rw [Recognized, mem_versions hlisting hdir]
  have hcheck : Listable (versionName source) →
      ((check ref gitDir source s').updateAvailable = false ↔
        (gitDir = true → latestVersion source = versionName source)) := by
    intro hlist
    rw [versionDir_of_listable hlist] at hlink hbinary
    have hactive := activeVersion_of_active ⟨hlink, hbinary⟩
    cases gitDir with
    | false => exact iff_of_true rfl nofun
    | true => simp [check, hactive, latestVersion]
  constructor
  · rintro ⟨hupdate, hlist⟩
    cases gitDir with
    | false => exact hlist
    | true => exact (latestVersion_eq_iff hlist).1 ((hcheck hlist).1 hupdate rfl)
  · intro hnamed
    have hlist := listable_versionName hnamed
    refine ⟨(hcheck hlist).2 fun hgit => ?_, hlist⟩
    subst hgit
    exact (latestVersion_eq_iff hlist).2 hnamed

/-! ## Updates of a first version -/

/-- A first update in which everything works and nothing is cleaned up. -/
def firstBuild (tag : String) : Bool × Install :=
  updateFromSource (Machine.build tag (-1) .staged) Machine.empty.install

def builtSource (tag : String) : Source := ⟨true, bytes tag, bytes "abc1234"⟩

theorem node_firstBuild {tag : String} {name : Bytes}
    (hname : versionDir (versionName (builtSource tag)) = [name]) (q : Bytes) :
    (firstBuild tag).2.node [q] = if q = name then some .dir else none := by
  have hstage : (firstBuild tag).2.node = (stage [name] Machine.empty.install .staged).node := by
    have hnone : ∀ listing spared s, pruneOld (-1) listing spared s = s := by simp [pruneOld]
    rcases @Machine.updateFromSource_cases (Machine.build tag (-1) .staged) (builtSource tag) rfl
      Machine.empty.install with ⟨hstaging, -⟩ | ⟨hdry, -⟩ | ⟨-, -, hresult⟩
    · exact absurd rfl hstaging
    · cases hdry
    · rw [firstBuild, hresult, ← hname]
      split
      · exact (congrArg Install.node (hnone _ _ _)).trans (node_activate _ _ _)
      · exact node_activate _ _ _
  have hbinary : [q] ≠ binary [name] := by simp [binary]
  rw [hstage]
  refine (Function.update_of_ne hbinary _ _).trans ?_
  by_cases hq : q = name
  · simp [createDirectories, removeAll, Machine.empty, hq]
  · simp [createDirectories, removeAll, Machine.empty, hq]

theorem shows_firstBuild : Listing.Shows ⟨[bytes "v1.0"], fun _ => 0⟩ (firstBuild "v1.0").2 := by
  intro q
  have hdir : versionDir (versionName (builtSource "v1.0")) = [bytes "v1.0"] := by decide +kernel
  rw [node_firstBuild hdir]
  by_cases hq : q = bytes "v1.0"
  · subst hq
    exact iff_of_true (List.mem_singleton.2 rfl) ⟨by decide, rfl⟩
  · simp [hq]

theorem recognized_iff_first :
    Recognized [] true (builtSource "v1.0") ⟨[bytes "v1.0"], fun _ => 0⟩ (firstBuild "v1.0").2 ↔
      WellNamed true (builtSource "v1.0") :=
  @recognized_iff (Machine.build "v1.0" (-1) .staged) (builtSource "v1.0") Machine.empty.install rfl
    rfl (by decide +kernel) (by decide +kernel) (by decide +kernel) _ shows_firstBuild [] true

/-- Without a tag, or with one that has a slash, an update seems to be available right after
the update. -/
theorem untagged_not_recognized :
    ¬ Recognized [] true (builtSource "") ⟨[bytes "vabc1234"], fun _ => 0⟩ (firstBuild "").2 ∧
    ¬ Recognized [] true (builtSource "release/1.0") ⟨[bytes "release"], fun _ => 0⟩
      (firstBuild "release/1.0").2 := by
  refine ⟨fun h => ?_, fun h => ?_⟩
  · exact absurd h.1 (by decide +kernel)
  · exact absurd h.1 (by decide +kernel)

end Nazg.Update

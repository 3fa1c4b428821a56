import Nazg.Lib.Runs
import Nazg.Proofs.Updates

/-!
# Rolling back step by step

Without an argument a rollback looks at the two newest versions only. From the newest it goes to
the version before it; from every other one it goes to the newest. So one step back is all that
there is: the next one leads to the version that the first one left.
-/

namespace Nazg.Update

open Lib
open Lib.Runs (Always)

/-! ## The versions -/

/-- The versions among the names in the root. -/
def Install.versionNames (s : Install) (names : List Bytes) : List Bytes := names.filter s.isVersion

/-- The versions have different times and their binaries, and one of them is active. -/
structure Install.Rooted (s : Install) (names : List Bytes) (mtime : Bytes → Int)
    (active : Bytes) : Prop where
  nodup : names.Nodup
  distinct : ∀ a ∈ s.versionNames names, ∀ b ∈ s.versionNames names, mtime a = mtime b → a = b
  whole : ∀ name ∈ s.versionNames names, s.node (binary [name]) = some .whole
  link : s.link = .leadsTo (binary [active])
  installed : active ∈ s.versionNames names

/-- A rollback without an argument, to which the root shows these names in some order. -/
structure RollbackRun.Lists (run : RollbackRun) (names : List Bytes) (mtime : Bytes → Int) :
    Prop where
  plain : run.toVersion = none ∨ run.toVersion = some []
  names : run.listing.names.Perm names
  mtime : run.listing.mtime = mtime

/-- The newest version that was installed before the active one. -/
def IsPrevious (mtime : Bytes → Int) (versions : List Bytes) (active target : Bytes) : Prop :=
  target ∈ versions ∧ mtime target < mtime active ∧
    ∀ name ∈ versions, mtime name < mtime active → mtime name ≤ mtime target

/-- What a rollback leaves. -/
def rolled (s : Install) (run : RollbackRun) : Install := (rollback run s).2

/-- The rollback fails and leaves the link, or it activates the version before the active one. -/
def StepsBack (names : List Bytes) (mtime : Bytes → Int) (s : Install) (run : RollbackRun) : Prop :=
  ∀ active, s.link = .leadsTo (binary [active]) →
    (rollback run s).1 = false ∧ (rolled s run).link = s.link ∨
      ∃ target, IsPrevious mtime (s.versionNames names) active target ∧
        rollback run s = (true, { s with link := .leadsTo (binary [target]) })

/-- There is nothing to go to, or the link is not removed, or the newest version is active and
the switch does not end half way. -/
def FromNewest (names : List Bytes) (mtime : Bytes → Int) (s : Install) (run : RollbackRun) :
    Prop :=
  ∀ active, s.link = .leadsTo (binary [active]) →
    (s.versionNames names).length < 2 ∨ run.switch.removes = false ∨
      run.switch.creates = true ∧ ∀ name ∈ s.versionNames names, mtime name ≤ mtime active

section

variable {s : Install} {names : List Bytes} {mtime : Bytes → Int} {active : Bytes}
  {run : RollbackRun}

theorem pairwise_versions (listing : Listing) (s : Install) :
    (listing.versions s).Pairwise fun a b => listing.mtime b ≤ listing.mtime a := by
  have htotal : Std.Total fun a b => listing.mtime b ≤ listing.mtime a :=
    ⟨fun a b => le_total (listing.mtime b) (listing.mtime a)⟩
  have htrans : IsTrans Bytes fun a b => listing.mtime b ≤ listing.mtime a :=
    ⟨fun _ _ _ hab hbc => le_trans hbc hab⟩
  exact List.pairwise_insertionSort _ _

theorem RollbackRun.Lists.perm (h : run.Lists names mtime) (s : Install) :
    (run.listing.versions s).Perm (s.versionNames names) :=
  (List.perm_insertionSort _ _).trans (h.names.filter _)

theorem Install.Rooted.activeVersion (h : s.Rooted names mtime active) :
    s.activeVersion = some active :=
  activeVersion_of_active ⟨h.link, h.whole active h.installed⟩

/-! ## One step -/

theorem RollbackRun.Lists.noVersion (hrun : run.Lists names mtime) :
    (run.toVersion.bind fun want => if want = [] then none else some want) = none := by
  rcases hrun.plain with hplain | hplain
  · rw [hplain]
    rfl
  · rw [hplain]
    rfl

theorem rollbackTarget_short (hrun : run.Lists names mtime)
    (hlist : (run.listing.versions s).length < 2) : rollbackTarget run s = .none := by
  rw [rollbackTarget, hrun.noVersion]
  dsimp only
  split
  · next heq =>
      rw [heq, List.length_cons, List.length_cons] at hlist
      omega
  · rfl

theorem rollbackTarget_long (hrun : run.Lists names mtime) (h : s.Rooted names mtime active)
    {first second : Bytes} {rest : List Bytes}
    (hlist : run.listing.versions s = first :: second :: rest) :
    rollbackTarget run s = .leadsTo (if active = first then second else first) := by
  rw [rollbackTarget, hrun.noVersion, hlist, h.activeVersion]
  simp only [Option.some.injEq]
  split <;> rfl

/-- The switch from an active version. -/
theorem activate_rooted (h : s.Rooted names mtime active) (version : Place) :
    activate run.switch version s =
      if run.switch.removes = true then
        if run.switch.creates = true then (true, { s with link := .leadsTo (binary version) })
        else (false, { s with link := .absent })
      else (false, s) := by
  have hexists : s.linkExists = true := by
    rw [Install.linkExists, h.link]
    simp [h.whole active h.installed]
  rw [activate, hexists]
  cases run.switch.removes with
  | true => cases run.switch.creates <;> simp
  | false => simp [h.link]

/-- What a rollback does, from the two newest versions on. -/
theorem rollback_cases_rooted (hrun : run.Lists names mtime) (h : s.Rooted names mtime active) :
    (s.versionNames names).length < 2 ∧ rollback run s = (false, s) ∨
      ∃ first second rest, run.listing.versions s = first :: second :: rest ∧
        rollback run s =
          activate run.switch [if active = first then second else first] s := by
  by_cases hshort : (run.listing.versions s).length < 2
  · refine .inl ⟨(hrun.perm s).length_eq ▸ hshort, ?_⟩
    rw [rollback, rollbackTarget_short hrun hshort]
  · obtain ⟨first, second, rest, hlist⟩ : ∃ first second rest,
        run.listing.versions s = first :: second :: rest := by
      cases hlist : run.listing.versions s with
      | nil => simp [hlist] at hshort
      | cons first rest =>
          cases rest with
          | nil => simp [hlist] at hshort
          | cons second rest => exact ⟨first, second, rest, rfl⟩
    refine .inr ⟨first, second, rest, hlist, ?_⟩
    rw [rollback, rollbackTarget_long hrun h hlist]

/-- The first two of the list are the newest version and the one before it. -/
theorem isPrevious_second (hrun : run.Lists names mtime) (h : s.Rooted names mtime active)
    {first second : Bytes} {rest : List Bytes}
    (hlist : run.listing.versions s = first :: second :: rest) :
    IsPrevious mtime (s.versionNames names) first second ∧
      ∀ name ∈ s.versionNames names, mtime name ≤ mtime first := by
  have hperm := hrun.perm s
  have hpairwise := pairwise_versions run.listing s
  have hnodup : (s.versionNames names).Nodup := h.nodup.filter _
  rw [hlist] at hperm hpairwise
  rw [hrun.mtime] at hpairwise
  obtain ⟨hfirst, htail⟩ := List.pairwise_cons.1 hpairwise
  obtain ⟨hsecond, -⟩ := List.pairwise_cons.1 htail
  have hmem : ∀ name, name ∈ s.versionNames names ↔ name ∈ first :: second :: rest :=
    fun name => hperm.mem_iff.symm
  have hne : second ≠ first := by
    have hnodup' := hperm.nodup_iff.2 hnodup
    intro heq
    rw [heq] at hnodup'
    simp at hnodup'
  have hfirst' : first ∈ s.versionNames names := (hmem first).2 List.mem_cons_self
  have hsecond' : second ∈ s.versionNames names := (hmem second).2 (by simp)
  refine ⟨⟨hsecond', ?_, fun name hname hlt => ?_⟩, fun name hname => ?_⟩
  · refine lt_of_le_of_ne (hfirst second List.mem_cons_self) fun heq => ?_
    exact hne (h.distinct second hsecond' first hfirst' heq)
  · rcases List.mem_cons.1 ((hmem name).1 hname) with rfl | htail'
    · exact absurd hlt (lt_irrefl _)
    · rcases List.mem_cons.1 htail' with rfl | hrest
      · exact le_refl _
      · exact hsecond name hrest
  · rcases List.mem_cons.1 ((hmem name).1 hname) with rfl | htail'
    · exact le_refl _
    · exact hfirst name htail'

/-- At a state with an active version the two conditions are about this version. -/
theorem forall_active_iff (h : s.Rooted names mtime active) {p : Bytes → Prop} :
    (∀ a, s.link = .leadsTo (binary [a]) → p a) ↔ p active := by
  refine ⟨fun hall => hall active h.link, fun hp a ha => ?_⟩
  rw [h.link] at ha
  obtain rfl : active = a := by simpa [binary] using ha
  exact hp

theorem stepsBack_iff (hrun : run.Lists names mtime) (h : s.Rooted names mtime active) :
    StepsBack names mtime s run ↔ FromNewest names mtime s run := by
  rw [StepsBack, FromNewest, forall_active_iff h, forall_active_iff h]
  rcases rollback_cases_rooted hrun h with ⟨hshort, hresult⟩ | ⟨first, second, rest, hlist, hresult⟩
  · rw [rolled, hresult]
    exact iff_of_true (.inl ⟨rfl, rfl⟩) (.inl hshort)
  obtain ⟨hprevious, hnewest⟩ := isPrevious_second hrun h hlist
  have hlong : ¬ (s.versionNames names).length < 2 := by
    rw [← (hrun.perm s).length_eq, hlist]
    simp
  rw [rolled, hresult, activate_rooted h]
  cases hremoves : run.switch.removes with
  | false => exact iff_of_true (.inl ⟨rfl, rfl⟩) (.inr (.inl rfl))
  | true =>
      cases hcreates : run.switch.creates with
      | false =>
          refine iff_of_false ?_ ?_
          · rintro (⟨-, habsent⟩ | ⟨target, -, hresult⟩)
            · rw [h.link] at habsent
              cases habsent
            · cases hresult
          · rintro (hshort | hkept | ⟨hmade, -⟩)
            · exact hlong hshort
            · cases hkept
            · cases hmade
      | true =>
          simp only [if_true]
          by_cases hactive : active = first
          · subst hactive
            rw [if_pos rfl]
            exact iff_of_true (.inr ⟨second, hprevious, rfl⟩) (.inr (.inr ⟨trivial, hnewest⟩))
          · rw [if_neg hactive]
            have hfirst : first ∈ s.versionNames names :=
              (hrun.perm s).mem_iff.1 (hlist ▸ List.mem_cons_self)
            refine iff_of_false ?_ ?_
            · rintro (⟨hfails, -⟩ | ⟨target, htarget, hresult⟩)
              · cases hfails
              · obtain rfl : first = target := by simpa [binary] using hresult
                exact absurd (hnewest active h.installed) (not_le_of_gt htarget.2.1)
            · rintro (hshort | hkept | ⟨-, hall⟩)
              · exact hlong hshort
              · cases hkept
              · exact hactive (h.distinct active h.installed first hfirst
                  (le_antisymm (hnewest active h.installed) (hall first hfirst)))

theorem node_rollback (run : RollbackRun) (s : Install) : (rollback run s).2.node = s.node := by
  rw [rollback]
  split
  · rfl
  · rfl
  · exact node_activate _ _ _

/-- Another version can be active among the same files. -/
theorem Install.Rooted.of_link (h : s.Rooted names mtime active) {s' : Install}
    (hnode : s'.node = s.node) {active' : Bytes} (hlink : s'.link = .leadsTo (binary [active']))
    (hmem : active' ∈ s.versionNames names) : s'.Rooted names mtime active' := by
  have hsame : s'.versionNames names = s.versionNames names := by
    rw [Install.versionNames, Install.versionNames]
    refine List.filter_congr fun name _ => ?_
    rw [Install.isVersion, Install.isVersion, hnode]
  refine ⟨h.nodup, ?_, ?_, hlink, hsame ▸ hmem⟩
  · rw [hsame]
    exact h.distinct
  · rw [hsame, hnode]
    exact h.whole

/-- A rollback that steps back, or fails, leaves one of the versions active, and no newer one. -/
theorem rooted_rolled (h : s.Rooted names mtime active) (hsteps : StepsBack names mtime s run) :
    ∃ active', (rolled s run).Rooted names mtime active' ∧ mtime active' ≤ mtime active := by
  have hnode : (rolled s run).node = s.node := node_rollback run s
  rcases hsteps active h.link with ⟨-, hlink⟩ | ⟨target, htarget, hresult⟩
  · exact ⟨active, h.of_link hnode (hlink.trans h.link) h.installed, le_refl _⟩
  · have hlink : (rolled s run).link = .leadsTo (binary [target]) := by rw [rolled, hresult]
    exact ⟨target, h.of_link hnode hlink htarget.1, htarget.2.1.le⟩

/-! ## Rollbacks one after the other -/

theorem rooted_run (h : s.Rooted names mtime active) {runs : List RollbackRun}
    (hsteps : Always rolled (StepsBack names mtime) s runs) :
    ∃ last, (Runs.run rolled s runs).Rooted names mtime last ∧ mtime last ≤ mtime active := by
  induction runs generalizing s active with
  | nil => exact ⟨active, h, le_refl _⟩
  | cons r runs ih =>
      obtain ⟨active', hrooted, hle⟩ := rooted_rolled h hsteps.1
      obtain ⟨last, hlast, hle'⟩ := ih hrooted hsteps.2
      exact ⟨last, hlast, le_trans hle' hle⟩

end

/-! ## Two rollbacks from the newest of three versions -/

def threeVersions : List Bytes := [bytes "v1", bytes "v2", bytes "v3"]

def installedAt (name : Bytes) : Int := if name = bytes "v3" then 3 else if name = bytes "v2" then 2
  else 1

/-- Each has its directory and its binary, and the newest is active. -/
def threeInstalled : Install where
  node q :=
    if q ∈ threeVersions.map (fun name => [name]) then some .dir
    else if q ∈ threeVersions.map (fun name => binary [name]) then some .whole
    else none
  link := .leadsTo (binary [bytes "v3"])

def plainRollback : RollbackRun := ⟨none, Machine.workingSwitch, ⟨threeVersions, installedAt⟩⟩

theorem rooted_threeInstalled :
    threeInstalled.Rooted threeVersions installedAt (bytes "v3") where
  nodup := by decide +kernel
  distinct := by decide +kernel
  whole := by decide +kernel
  link := rfl
  installed := by decide +kernel

theorem lists_plainRollback : plainRollback.Lists threeVersions installedAt where
  plain := .inl rfl
  names := .refl _
  mtime := rfl

end Nazg.Update

import Nazg.Engine.Updater
import Nazg.Lib.System

/-!
# What becomes of the active version

The staging clears the directory of the version that it builds, active or not; the switch takes
the link away before it makes the new one; and the cleanup goes by the times of the directories.
A run that stays clear of these never loses the active binary.
-/

namespace Nazg.Update

open Lib

/-- The link leads to this binary, and the binary is there. -/
def Install.Active (s : Install) (target : Place) : Prop :=
  s.link = .leadsTo target ∧ s.node target = some .whole

/-! ## Files that stay -/

theorem node_removeAll {place q : Place} {spared : Place → Bool} {s : Install}
    (h : ¬ place <+: q ∨ spared q = true) : (removeAll place spared s).node q = s.node q := by
  simp only [removeAll]
  refine if_neg ?_
  rintro ⟨hbelow, hgone⟩
  rcases h with hno | hspared
  · exact hno hbelow
  · exact hgone hspared

theorem node_createDirectories {place q : Place} {s : Install} {entry : Entry}
    (h : s.node q = some entry) : (createDirectories place s).node q = some entry := by
  simp only [createDirectories]
  rw [if_neg, h]
  rintro ⟨-, hnone⟩
  rw [h] at hnone
  cases hnone

/-- The staging leaves a binary of another version, and one that it makes itself. -/
theorem node_stage {version q : Place} {s : Install} {staging : Staging}
    (hq : s.node q = some .whole) (h : ¬ version <+: q) :
    (stage version s staging).node q = some .whole := by
  have hcleared : (removeAll version noneSpared s).node q = some .whole :=
    (node_removeAll (.inl h)).trans hq
  have hne : q ≠ binary version := by
    rintro rfl
    exact h (List.prefix_append _ _)
  cases staging with
  | clearThrows spared => exact (node_removeAll (.inl h)).trans hq
  | binFails made =>
      simp only [stage]
      split
      · exact node_createDirectories hcleared
      · exact hcleared
  | notBuilt => exact node_createDirectories hcleared
  | copyFails broken =>
      simp only [stage]
      split
      · exact (Function.update_of_ne hne _ _).trans (node_createDirectories hcleared)
      · exact node_createDirectories hcleared
  | migrationsFail =>
      exact (Function.update_of_ne hne _ _).trans (node_createDirectories hcleared)
  | staged => exact (Function.update_of_ne hne _ _).trans (node_createDirectories hcleared)

theorem link_stage (version : Place) (s : Install) (staging : Staging) :
    (stage version s staging).link = s.link := by
  cases staging with
  | binFails made => cases made <;> rfl
  | copyFails broken => cases broken <;> rfl
  | _ => rfl

theorem node_prune {q : Place} {spared : Place → Bool} {names : List Bytes} {s : Install}
    (h : ∀ name ∈ names, ¬ [name] <+: q ∨ spared q = true) :
    (names.foldl (fun s name => removeAll [name] spared s) s).node q = s.node q := by
  induction names generalizing s with
  | nil => rfl
  | cons name names ih =>
      rw [List.foldl_cons, ih fun n hn => h n (List.mem_cons_of_mem _ hn)]
      exact node_removeAll (h name List.mem_cons_self)

theorem link_prune (spared : Place → Bool) (names : List Bytes) (s : Install) :
    (names.foldl (fun s name => removeAll [name] spared s) s).link = s.link := by
  induction names generalizing s with
  | nil => rfl
  | cons name names ih => exact ih (removeAll [name] spared s)

/-! ## The switch -/

/-- A link to a version leads to its binary. -/
def Install.Sound (s : Install) : Prop :=
  ∀ target, s.link = .leadsTo target → (∃ version, target = binary version) ∧
    s.node target = some .whole

theorem Install.Sound.linkExists {s : Install} (h : s.Sound) :
    s.linkExists = true ↔ s.link ≠ .absent := by
  rw [Install.linkExists]
  cases hlink : s.link with
  | absent => simp
  | file => simp
  | leadsTo target => simp [(h target hlink).2]

/-- The switch of a link that is there does not stop half way. -/
def Switch.Whole (switch : Switch) : Prop := switch.removes = true → switch.creates = true

theorem activate_of_cleared {switch : Switch} (version : Place) {s cleared : Install}
    (h : (if s.linkExists ∧ switch.removes then { s with link := .absent } else s) = cleared) :
    activate switch version s = if cleared.link = .absent ∧ switch.creates then
      (true, { cleared with link := .leadsTo (binary version) }) else (false, cleared) := by
  subst h
  rfl

/-- A whole switch makes the new link, or leaves the old one. -/
theorem activate_cases {switch : Switch} (version : Place) {s : Install} (hs : s.Sound)
    (hwhole : (∃ target, s.link = .leadsTo target) → switch.Whole) :
    activate switch version s = (true, { s with link := .leadsTo (binary version) }) ∨
      (activate switch version s).1 = false ∧ (activate switch version s).2.node = s.node ∧
        ((activate switch version s).2.link = s.link ∨
          (activate switch version s).2.link = .absent ∧ s.link = .file) := by
  by_cases hlink : s.link = .absent
  · have hexists : ¬ (s.linkExists = true ∧ switch.removes = true) :=
      fun h => hs.linkExists.1 h.1 hlink
    rw [activate_of_cleared version (if_neg hexists)]
    split
    · exact .inl rfl
    · exact .inr ⟨rfl, rfl, .inl rfl⟩
  · cases hremoves : switch.removes with
    | false =>
        have hexists : ¬ (s.linkExists = true ∧ switch.removes = true) := by simp [hremoves]
        rw [activate_of_cleared version (if_neg hexists), if_neg fun h => hlink h.1]
        exact .inr ⟨rfl, rfl, .inl rfl⟩
    | true =>
        have hexists : s.linkExists = true ∧ switch.removes = true :=
          ⟨hs.linkExists.2 hlink, hremoves⟩
        rw [activate_of_cleared version (if_pos hexists)]
        cases hcreates : switch.creates with
        | true => exact .inl rfl
        | false =>
            refine .inr ⟨rfl, rfl, .inr ⟨rfl, ?_⟩⟩
            cases hs' : s.link with
            | absent => exact absurd hs' hlink
            | file => rfl
            | leadsTo target =>
                have hboth := hwhole ⟨target, hs'⟩ hremoves
                rw [hcreates] at hboth
                cases hboth

theorem activeVersion_of_active {s : Install} {name : Bytes} (h : s.Active (binary [name])) :
    s.activeVersion = some name := by
  rw [Install.activeVersion, h.1, Install.linkExists, h.1]
  simp only [h.2, Option.isSome_some, if_true]
  rfl

theorem node_activate (switch : Switch) (version : Place) (s : Install) :
    (activate switch version s).2.node = s.node := by
  obtain ⟨cleared, hcleared⟩ : ∃ cleared, (if s.linkExists ∧ switch.removes then
      { s with link := .absent } else s) = cleared := ⟨_, rfl⟩
  have hnode : cleared.node = s.node := by
    rw [← hcleared]
    split <;> rfl
  rw [activate_of_cleared version hcleared]
  split
  · exact hnode
  · exact hnode

/-- An activation that succeeds has made the link. -/
theorem link_activate {switch : Switch} {version : Place} {s : Install}
    (h : (activate switch version s).1 = true) :
    (activate switch version s).2.link = .leadsTo (binary version) := by
  obtain ⟨cleared, hcleared⟩ : ∃ cleared, (if s.linkExists ∧ switch.removes then
      { s with link := .absent } else s) = cleared := ⟨_, rfl⟩
  rw [activate_of_cleared version hcleared] at h ⊢
  split at h
  · next hmade => rw [if_pos hmade]
  · cases h

/-! ## Runs -/

/-- The installation, and whether a version was ever activated. -/
structure Machine where
  install : Install
  installed : Bool

inductive Event where
  | update (run : UpdateRun)
  | rollback (run : RollbackRun)

/-- Whether the command succeeds, and what it leaves. -/
def Event.run (e : Event) (s : Install) : Bool × Install :=
  match e with
  | update run => updateFromSource run s
  | rollback run => Update.rollback run s

/-- A success of this command activates a version, if none is active. -/
def Event.activates : Event → Bool
  | update run => !run.dryRun
  | rollback _ => true

namespace Machine

variable (m : Machine)

def step (e : Event) : Machine where
  install := (e.run m.install).2
  installed := m.installed || (e.activates && (e.run m.install).1)

/-- Before the first version there is no link, or something else in its place. -/
def system (file : Bool) (node : Place → Option Entry) : System Machine Event where
  init := ⟨⟨node, if file then .file else .absent⟩, false⟩
  step m e := some (m.step e)

/-- Once a version has been installed, the link leads to a binary in a version's directory. -/
def Safe : Prop := m.installed = true →
  ∃ version, m.install.Active (binary version)

/-- An update that fails, or only tries, leaves the active version. -/
def LeavesActive (e : Event) : Prop := ∀ run target, e = .update run →
  ((e.run m.install).1 = false ∨ run.dryRun = true) → m.install.Active target →
    (m.step e).install.Active target

/-- The clone is not where the active version is, or brings it back. -/
def ClonesClear (run : UpdateRun) : Prop := ∀ target made, m.install.Active target →
  run.clone = some made → cloneDir <+: target → made target = some .whole

/-- The version that is built is not the active one nor around it, or the staging makes its
binary anew, or stops before it is removed. -/
def StagesClear (run : UpdateRun) (version : Place) : Prop := ∀ target, m.install.Active target →
  version <+: target →
    match run.staging with
    | .staged | .migrationsFail => target = binary version
    | .clearThrows spared => spared target = true
    | _ => False

/-- The cleanup does not reach the version that is activated. -/
def PrunesClear (run : UpdateRun) (version : Place) (s : Install) : Prop :=
  let list := run.listing.versions s
  ∀ name ∈ list.drop (if run.keep < 0 then list.length else run.keep.toNat),
    ¬ [name] <+: binary version ∨ run.spared (binary version) = true

/-- The commands that keep clear of the active version. -/
def Careful (m : Machine) : Event → Prop
  | .update run => m.ClonesClear run ∧ ∀ source, run.source = some source →
      let version := versionDir (versionName source)
      let staged := stage version (cloneSources run.clone m.install) run.staging
      m.StagesClear run version ∧
        (run.dryRun = false → run.staging = .staged →
          ((∃ target, m.install.Active target) → run.switch.Whole) ∧ PrunesClear run version staged)
  | .rollback run => ∀ name, rollbackTarget run m.install = .leadsTo name →
      m.install.node (binary [name]) = some .whole ∧
        ((∃ target, m.install.Active target) → run.switch.Whole)

variable {m}

/-- What holds in each state of a careful run. -/
def Inv (m : Machine) : Prop :=
  m.install.Sound ∧ (m.installed = true → ∃ target, m.install.link = .leadsTo target)

theorem Inv.safe (h : m.Inv) : m.Safe := by
  intro hinstalled
  obtain ⟨target, hlink⟩ := h.2 hinstalled
  obtain ⟨⟨version, rfl⟩, hwhole⟩ := h.1 target hlink
  exact ⟨version, hlink, hwhole⟩

theorem active_iff {s : Install} (hs : s.Sound) (target : Place) :
    s.Active target ↔ s.link = .leadsTo target :=
  ⟨And.left, fun h => ⟨h, (hs target h).2⟩⟩

/-- If the active binary stays, so does what is known of the link. -/
theorem sound_of_keeps {s s' : Install} (hs : s.Sound) (hlink : s'.link = s.link)
    (hnode : ∀ target, s.Active target → s'.node target = some .whole) : s'.Sound := by
  intro target htarget
  rw [hlink] at htarget
  exact ⟨(hs target htarget).1, hnode target ((active_iff hs target).2 htarget)⟩

theorem node_clone {run : UpdateRun} (h : m.ClonesClear run) {target : Place}
    (htarget : m.install.Active target) :
    (cloneSources run.clone m.install).node target = some .whole := by
  cases hclone : run.clone with
  | none => exact htarget.2
  | some made =>
      simp only [cloneSources]
      split
      · next hprefix => exact h target made htarget hclone hprefix
      · exact htarget.2

theorem link_clone (clone : Option (Place → Option Entry)) (s : Install) :
    (cloneSources clone s).link = s.link := by
  cases clone <;> rfl

theorem node_binary (version : Place) (s : Install) {staging : Staging}
    (h : staging = .staged ∨ staging = .migrationsFail) :
    (stage version s staging).node (binary version) = some .whole := by
  rcases h with rfl | rfl
  · exact Function.update_self _ _ _
  · exact Function.update_self _ _ _

theorem node_staged {run : UpdateRun} {version : Place} (hclone : m.ClonesClear run)
    (hstage : m.StagesClear run version) {target : Place} (htarget : m.install.Active target) :
    (stage version (cloneSources run.clone m.install) run.staging).node target = some .whole := by
  have hnode := node_clone hclone htarget
  by_cases hprefix : version <+: target
  · have hclear := hstage target htarget hprefix
    cases hstaging : run.staging with
    | staged =>
        rw [hstaging] at hclear
        rw [show target = binary version from hclear]
        exact node_binary _ _ (.inl rfl)
    | migrationsFail =>
        rw [hstaging] at hclear
        rw [show target = binary version from hclear]
        exact node_binary _ _ (.inr rfl)
    | clearThrows spared =>
        rw [hstaging] at hclear
        exact (node_removeAll (.inr hclear)).trans hnode
    | binFails made =>
        rw [hstaging] at hclear
        exact hclear.elim
    | notBuilt =>
        rw [hstaging] at hclear
        exact hclear.elim
    | copyFails broken =>
        rw [hstaging] at hclear
        exact hclear.elim
  · exact node_stage hnode hprefix

/-- What an update does once its sources are there. -/
theorem updateFromSource_cases {run : UpdateRun} {source : Source} (h : run.source = some source)
    (s : Install) :
    let version := versionDir (versionName source)
    let staged := stage version (cloneSources run.clone s) run.staging
    let activated := activate run.switch version staged
    run.staging ≠ .staged ∧ updateFromSource run s = (false, staged) ∨
      run.dryRun = true ∧ updateFromSource run s = (true, staged) ∨
      run.staging = .staged ∧ run.dryRun = false ∧ updateFromSource run s =
        if activated.1 then (true, pruneOld run.keep run.listing run.spared activated.2)
        else (false, activated.2) := by
  simp only [updateFromSource, h]
  cases hstaging : run.staging with
  | staged =>
      cases hdry : run.dryRun with
      | true => exact .inr (.inl ⟨rfl, rfl⟩)
      | false => exact .inr (.inr ⟨rfl, rfl, rfl⟩)
  | clearThrows spared => exact .inl ⟨by simp, rfl⟩
  | binFails made => exact .inl ⟨by simp, rfl⟩
  | notBuilt => exact .inl ⟨by simp, rfl⟩
  | copyFails broken => exact .inl ⟨by simp, rfl⟩
  | migrationsFail => exact .inl ⟨by simp, rfl⟩

/-- An update either leaves the link and the active binary, and has failed or only tried; or
it leaves no link where there was none to a version, and has failed; or it has made the link to
the binary that it leaves. -/
theorem update_cases {run : UpdateRun} (hm : m.Inv) (hcareful : m.Careful (.update run)) :
    (updateFromSource run m.install).2.link = m.install.link ∧
        ((updateFromSource run m.install).1 = false ∨ run.dryRun = true) ∧
        (∀ target, m.install.Active target →
          (updateFromSource run m.install).2.node target = some .whole) ∨
      (updateFromSource run m.install).1 = false ∧
        (updateFromSource run m.install).2.link = .absent ∧ m.install.link = .file ∨
      (updateFromSource run m.install).1 = true ∧ run.dryRun = false ∧ ∃ version,
        (updateFromSource run m.install).2.Active (binary version) := by
  obtain ⟨hclone, hsource⟩ := hcareful
  have hlink := link_clone run.clone m.install
  cases hsrc : run.source with
  | none =>
      have hresult : updateFromSource run m.install = (false, cloneSources run.clone m.install) := by
        simp only [updateFromSource, hsrc]
      rw [hresult]
      exact .inl ⟨hlink, .inl rfl, fun target htarget => node_clone hclone htarget⟩
  | some source =>
      obtain ⟨hstage, hswitch⟩ := hsource source hsrc
      have hstaged := fun target htarget => @node_staged m run _ hclone hstage target htarget
      have hlinks := (link_stage (versionDir (versionName source))
        (cloneSources run.clone m.install) run.staging).trans hlink
      have hsound := sound_of_keeps hm.1 hlinks hstaged
      rcases updateFromSource_cases hsrc m.install with ⟨-, hresult⟩ | ⟨hdry, hresult⟩ |
        ⟨hstaging, hdry, hresult⟩
      · rw [hresult]
        exact .inl ⟨hlinks, .inl rfl, hstaged⟩
      · rw [hresult]
        exact .inl ⟨hlinks, .inr hdry, hstaged⟩
      · obtain ⟨hwhole, hprune⟩ := hswitch hdry hstaging
        have hbinary := node_binary (versionDir (versionName source))
          (cloneSources run.clone m.install) (.inl hstaging)
        rcases activate_cases (versionDir (versionName source)) hsound (fun ⟨target, htarget⟩ =>
          hwhole ⟨target, (active_iff hm.1 target).2 (hlinks ▸ htarget)⟩) with
          hactivated | ⟨hfailed, hnode, hleft | ⟨habsent, hfile⟩⟩
        · rw [hactivated, if_pos rfl] at hresult
          rw [hresult]
          refine .inr (.inr ⟨rfl, hdry, _, link_prune _ _ _, ?_⟩)
          exact (node_prune hprune).trans hbinary
        · rw [hfailed, if_neg (by simp)] at hresult
          rw [hresult]
          refine .inl ⟨hleft.trans hlinks, .inl rfl, fun target htarget => ?_⟩
          rw [hnode]
          exact hstaged target htarget
        · rw [hfailed, if_neg (by simp)] at hresult
          rw [hresult]
          exact .inr (.inl ⟨rfl, habsent, hlinks ▸ hfile⟩)

theorem leadsTo_of_already {run : RollbackRun} {s : Install}
    (h : rollbackTarget run s = .already) : ∃ target, s.link = .leadsTo target := by
  have hactive : ∃ name, s.activeVersion = some name := by
    rw [rollbackTarget] at h
    split at h
    · split at h
      · cases h
      · split at h
        · next hcurrent => exact ⟨_, hcurrent⟩
        · cases h
    · split at h
      · split at h
        · cases h
        · cases h
      · cases h
  obtain ⟨name, hname⟩ := hactive
  rw [Install.activeVersion] at hname
  split at hname
  · next target hlink => exact ⟨target, hlink⟩
  · cases hname

/-- A rollback changes nothing, and if it says that it did succeed a version is active; or it
leaves no link where there was none to a version; or it has made the link to a binary. -/
theorem rollback_cases {run : RollbackRun} (hm : m.Inv) (hcareful : m.Careful (.rollback run)) :
    (rollback run m.install).2 = m.install ∧
        ((rollback run m.install).1 = true → ∃ target, m.install.link = .leadsTo target) ∨
      (rollback run m.install).1 = false ∧ (rollback run m.install).2.link = .absent ∧
        m.install.link = .file ∨
      ∃ version, (rollback run m.install).2.Active (binary version) := by
  rw [rollback]
  cases htarget : rollbackTarget run m.install with
  | none => exact .inl ⟨rfl, fun h => by cases h⟩
  | already => exact .inl ⟨rfl, fun _ => leadsTo_of_already htarget⟩
  | leadsTo name =>
      obtain ⟨hbinary, hwhole⟩ := hcareful name htarget
      rcases activate_cases [name] hm.1 (fun ⟨target, hlink⟩ =>
        hwhole ⟨target, (active_iff hm.1 target).2 hlink⟩) with
        hactivated | ⟨hfailed, hnode, hleft | ⟨habsent, hfile⟩⟩
      · simp only [hactivated]
        exact .inr (.inr ⟨[name], rfl, hbinary⟩)
      · refine .inl ⟨?_, fun h => by rw [hfailed] at h; cases h⟩
        exact Install.ext hnode hleft
      · exact .inr (.inl ⟨hfailed, habsent, hfile⟩)

theorem sound_of_absent {s : Install} (h : s.link = .absent) : s.Sound := by
  intro target htarget
  rw [h] at htarget
  cases htarget

theorem sound_of_active {s : Install} {version : Place} (h : s.Active (binary version)) :
    s.Sound := by
  intro target htarget
  rw [h.1] at htarget
  cases htarget
  exact ⟨⟨version, rfl⟩, h.2⟩

theorem inv_update (hm : m.Inv) {run : UpdateRun} (hcareful : m.Careful (.update run)) :
    (m.step (.update run)).Inv := by
  rcases update_cases hm hcareful with ⟨hlink, hresult, hnode⟩ | ⟨hfailed, habsent, hfile⟩ |
    ⟨-, -, version, hactive⟩
  · refine ⟨sound_of_keeps hm.1 hlink hnode, fun hinstalled => ?_⟩
    have hbefore : m.installed = true := by
      rcases hresult with hfailed | hdry
      · simpa [step, Event.run, hfailed] using hinstalled
      · simpa [step, Event.activates, hdry] using hinstalled
    obtain ⟨target, htarget⟩ := hm.2 hbefore
    exact ⟨target, hlink.trans htarget⟩
  · refine ⟨sound_of_absent habsent, fun hinstalled => ?_⟩
    have hbefore : m.installed = true := by simpa [step, Event.run, hfailed] using hinstalled
    obtain ⟨target, htarget⟩ := hm.2 hbefore
    rw [hfile] at htarget
    cases htarget
  · exact ⟨sound_of_active hactive, fun _ => ⟨_, hactive.1⟩⟩

theorem inv_rollback (hm : m.Inv) {run : RollbackRun} (hcareful : m.Careful (.rollback run)) :
    (m.step (.rollback run)).Inv := by
  rcases rollback_cases hm hcareful with ⟨hsame, hsuccess⟩ | ⟨hfailed, habsent, hfile⟩ |
    ⟨version, hactive⟩
  · have hinstall : (m.step (.rollback run)).install = m.install := hsame
    rw [Inv, hinstall]
    refine ⟨hm.1, fun hinstalled => ?_⟩
    rcases Bool.or_eq_true_iff.1 hinstalled with hbefore | hok
    · exact hm.2 hbefore
    · exact hsuccess (by simpa [Event.run, Event.activates] using hok)
  · refine ⟨sound_of_absent habsent, fun hinstalled => ?_⟩
    have hbefore : m.installed = true := by simpa [step, Event.run, hfailed] using hinstalled
    obtain ⟨target, htarget⟩ := hm.2 hbefore
    rw [hfile] at htarget
    cases htarget
  · exact ⟨sound_of_active hactive, fun _ => ⟨_, hactive.1⟩⟩

theorem inv_step (hm : m.Inv) {e : Event} (hcareful : m.Careful e) : (m.step e).Inv := by
  cases e with
  | update run => exact inv_update hm hcareful
  | rollback run => exact inv_rollback hm hcareful

theorem inv_reachable {file : Bool} {node : Place → Option Entry}
    (h : (system file node).ReachableBy Careful m) : m.Inv := by
  refine h.invariant (p := Inv) ?_ ?_
  · refine ⟨fun target htarget => ?_, fun hinstalled => by cases hinstalled⟩
    cases file <;> cases htarget
  · intro m e m' hm hcareful hstep
    cases hstep
    exact inv_step hm hcareful

theorem leavesActive (hm : m.Inv) {e : Event} (hcareful : m.Careful e) : m.LeavesActive e := by
  rintro run target rfl hfails htarget
  rcases update_cases hm hcareful with ⟨hlink, -, hnode⟩ | ⟨-, -, hfile⟩ | ⟨hok, hdry, -⟩
  · exact ⟨hlink.trans htarget.1, hnode target htarget⟩
  · rw [htarget.1] at hfile
    cases hfile
  · rcases hfails with hfailed | htry
    · exact absurd (hfailed.symm.trans hok) (by simp)
    · exact absurd (htry.symm.trans hdry) (by simp)

/-- In every state of a careful run the link leads to a binary, once a version has been
installed; and a careful update that fails, or only tries, leaves the active version. -/
theorem kept_of_careful {file : Bool} {node : Place → Option Entry}
    (h : (system file node).ReachableBy Careful m) :
    m.Safe ∧ ∀ e, m.Careful e → m.LeavesActive e :=
  ⟨(inv_reachable h).safe, fun _ hcareful => leavesActive (inv_reachable h) hcareful⟩

/-! ## The first update, and two that follow it -/

def workingSwitch : Switch := ⟨true, true⟩

/-- A build of a tag from local sources, in which everything works. -/
def build (tag : String) (keep : Int) (staging : Staging) : UpdateRun where
  keep
  dryRun := false
  clone := none
  source := some ⟨true, bytes tag, bytes "abc1234"⟩
  staging
  switch := workingSwitch
  listing := ⟨[bytes "v1.0", bytes "v1.1"], fun _ => 1700000000⟩
  spared := noneSpared

def empty : Machine := ⟨⟨fun _ => none, .absent⟩, false⟩

def first : Machine := empty.step (.update (build "v1.0" 3 .staged))

theorem careful_first : empty.Careful (.update (build "v1.0" 3 .staged)) := by
  have hnone : ∀ target, ¬ empty.install.Active target := by
    rintro target ⟨hlink, -⟩
    cases hlink
  refine ⟨fun target made htarget => absurd htarget (hnone target), ?_⟩
  rintro source ⟨⟩
  refine ⟨fun target htarget => absurd htarget (hnone target), fun _ _ => ⟨?_, ?_⟩⟩
  · rintro ⟨target, htarget⟩
    exact absurd htarget (hnone target)
  · have hdropped : ((build "v1.0" 3 .staged).listing.versions (stage
        (versionDir (bytes "v1.0")) empty.install .staged)).drop 3 = [] := by decide +kernel
    intro name hname
    have hmem : name ∈ ([] : List Bytes) := hdropped ▸ hname
    cases hmem

theorem kept_of_careful_first : first.Safe ∧ ∀ e, first.Careful e → first.LeavesActive e :=
  @kept_of_careful first false (fun _ => none) (.step .init careful_first rfl)

theorem not_safe {m : Machine} {target : Place} (hinstalled : m.installed = true)
    (hlink : m.install.link = .leadsTo target) (hnode : m.install.node target = none) :
    ¬ m.Safe := by
  intro h
  obtain ⟨version, hactive, hwhole⟩ := h hinstalled
  rw [hlink] at hactive
  cases hactive
  rw [hnode] at hwhole
  cases hwhole

/-- The active version is built again and the copy fails, or a count of 0 is kept: there is no
binary any more. -/
theorem active_lost :
    ¬ (first.step (.update (build "v1.0" 3 (.copyFails false)))).Safe ∧
    ¬ first.LeavesActive (.update (build "v1.0" 3 (.copyFails false))) ∧
    ¬ (first.step (.update (build "v1.1" 0 .staged))).Safe := by
  have hgone : (first.step (.update (build "v1.0" 3 (.copyFails false)))).install.node
      (binary [bytes "v1.0"]) = none := by decide +kernel
  refine ⟨?_, ?_, ?_⟩
  · exact not_safe (by decide +kernel) (by decide +kernel) hgone
  · intro h
    have hactive := h _ (binary [bytes "v1.0"]) rfl (.inl (by decide +kernel))
      ⟨by decide +kernel, by decide +kernel⟩
    rw [Install.Active, hgone] at hactive
    cases hactive.2
  · exact @not_safe _ (binary [bytes "v1.1"]) (by decide +kernel) (by decide +kernel)
      (by decide +kernel)

end Machine

end Nazg.Update

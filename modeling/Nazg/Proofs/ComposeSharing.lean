import Nazg.Docker.ComposeParser

/-!
# What the dependency pass reports

The four kinds of records, each against what the file says. Three of them are right for
every file. The fourth compares the texts before the first colon of two volume entries,
and an entry without a colon is compared as a whole: an anonymous volume then counts as
shared with whatever has the same text.

The two shared relations come out symmetric and irreflexive all the same.
-/

namespace Nazg.Docker

open Lib

/-! ## What a file says -/

/-- Two services of the file that are different and have a network in common. -/
def ComposeFile.NetworksTogether (compose : ComposeFile) (a b : Bytes) : Prop :=
  a ≠ b ∧ ∃ x y, compose.services.find? a = some x ∧ compose.services.find? b = some y ∧
    ∃ n ∈ x.networks, n ∈ y.networks

/-- Two services of the file that are different and mount the same named volume or host
path. What stands before the colon names it; without a colon nothing is named. -/
def ComposeFile.MountsTogether (compose : ComposeFile) (a b : Bytes) : Prop :=
  a ≠ b ∧ ∃ x y, compose.services.find? a = some x ∧ compose.services.find? b = some y ∧
    ∃ v ∈ x.volumes, ∃ w ∈ y.volumes, colon ∈ v ∧ colon ∈ w ∧ volumeName v = volumeName w

/-- Two different services with entries that agree before the first colon, if they have
one. -/
def ComposeFile.EntriesAgree (compose : ComposeFile) (a b : Bytes) : Prop :=
  a ≠ b ∧ ∃ x y, compose.services.find? a = some x ∧ compose.services.find? b = some y ∧
    ∃ v ∈ x.volumes, ∃ w ∈ y.volumes, volumeName v = volumeName w

/-- There is a record of the type from `a` to `b`. -/
def ComposeFile.Reports (compose : ComposeFile) (type a b : Bytes) : Prop :=
  ∃ d ∈ extractDependencies compose, d.type = type ∧ d.service = a ∧ d.dependsOn = b

/-- The records of a service are what the file says. -/
structure ComposeFile.ReportedExactly (compose : ComposeFile) : Prop where
  explicit : ∀ a b, compose.Reports (bytes "depends_on") a b ↔
    ∃ x, compose.services.find? a = some x ∧ b ∈ x.dependsOn
  networkMode : ∀ a b, compose.Reports (bytes "network_mode") a b ↔
    ∃ x, compose.services.find? a = some x ∧ x.networkMode = bytes "service:" ++ b
  sharedNetwork : ∀ a b, compose.Reports (bytes "shared_network") a b ↔
    compose.NetworksTogether a b
  sharedVolume : ∀ a b, compose.Reports (bytes "shared_volume") a b ↔
    compose.MountsTogether a b
  noOther : ∀ type a b, compose.Reports type a b →
    type ∈ [bytes "depends_on", bytes "network_mode", bytes "shared_network",
      bytes "shared_volume"]
  symmetric : ∀ type ∈ [bytes "shared_network", bytes "shared_volume"], ∀ a b,
    compose.Reports type a b → compose.Reports type b a
  irreflexive : ∀ type ∈ [bytes "shared_network", bytes "shared_volume"], ∀ a,
    ¬ compose.Reports type a a

/-! ## The records of one service -/

section

variable {compose : ComposeFile} {name : Bytes} {service : ComposeService}
  {d : DetectedDependency}

theorem networkModeTarget_eq_some {mode b : Bytes} :
    networkModeTarget mode = some b ↔ mode = bytes "service:" ++ b := by
  have hlen : (bytes "service:").length = 8 := by decide
  rw [networkModeTarget]
  constructor
  · intro h
    split at h
    · next hmode =>
        rw [← hmode.2, ← Option.some.inj h, List.take_append_drop]
    · cases h
  · rintro rfl
    have htake : (bytes "service:" ++ b).take 8 = bytes "service:" := List.take_left' hlen
    have hne : bytes "service:" ++ b ≠ [] :=
      List.append_ne_nil_of_left_ne_nil (by decide) b
    rw [if_pos ⟨hne, htake⟩, List.drop_left' hlen]

theorem mem_explicitDeps : d ∈ explicitDeps name service ↔
    d.service = name ∧ d.type = bytes "depends_on" ∧ d.dependsOn ∈ service.dependsOn ∧
      d.details = bytes "Explicit dependency in compose file" := by
  rw [explicitDeps, List.mem_map]
  constructor
  · rintro ⟨dep, hdep, rfl⟩
    exact ⟨rfl, rfl, hdep, rfl⟩
  · obtain ⟨s, o, t, details⟩ := d
    rintro ⟨rfl, rfl, hdep, rfl⟩
    exact ⟨o, hdep, rfl⟩

theorem mem_networkModeDeps : d ∈ networkModeDeps name service ↔
    d.service = name ∧ d.type = bytes "network_mode" ∧
      service.networkMode = bytes "service:" ++ d.dependsOn ∧
      d.details = bytes "Uses network stack of " ++ d.dependsOn := by
  rw [networkModeDeps, List.mem_map]
  simp only [Option.mem_toList, networkModeTarget_eq_some]
  constructor
  · rintro ⟨dep, hdep, rfl⟩
    exact ⟨rfl, rfl, hdep, rfl⟩
  · obtain ⟨s, o, t, details⟩ := d
    rintro ⟨rfl, rfl, hmode, hdetails⟩
    dsimp only at hmode hdetails
    exact ⟨o, hmode, by rw [hdetails]⟩

theorem mem_sharedNetworkDeps : d ∈ sharedNetworkDeps compose name service ↔
    d.service = name ∧ d.type = bytes "shared_network" ∧ name ≠ d.dependsOn ∧
      ∃ other, compose.services.find? d.dependsOn = some other ∧
        ∃ n ∈ service.networks, n ∈ other.networks ∧
          d.details = sharedNetworkDetails service n := by
  simp only [sharedNetworkDeps, List.mem_flatMap, List.mem_map, List.mem_filter, mem_others,
    decide_eq_true_eq]
  constructor
  · rintro ⟨n, hn, ⟨o, other⟩, ⟨⟨hfind, hne⟩, hon⟩, rfl⟩
    exact ⟨rfl, rfl, Ne.symm hne, other, hfind, n, hn, hon, rfl⟩
  · obtain ⟨s, o, t, details⟩ := d
    rintro ⟨rfl, rfl, hne, other, hfind, n, hn, hon, rfl⟩
    exact ⟨n, hn, (o, other), ⟨⟨hfind, Ne.symm hne⟩, hon⟩, rfl⟩

theorem mem_sharedVolumeDeps : d ∈ sharedVolumeDeps compose name service ↔
    d.service = name ∧ d.type = bytes "shared_volume" ∧ name ≠ d.dependsOn ∧
      ∃ other, compose.services.find? d.dependsOn = some other ∧
        ∃ v ∈ service.volumes, ∃ w ∈ other.volumes, volumeName v = volumeName w ∧
          d.details = bytes "Both use volume: " ++ volumeName v := by
  simp only [sharedVolumeDeps, List.mem_flatMap, List.mem_map, List.mem_filter, mem_others,
    decide_eq_true_eq]
  constructor
  · rintro ⟨v, hv, ⟨o, other⟩, ⟨hfind, hne⟩, w, ⟨hw, hvw⟩, rfl⟩
    exact ⟨rfl, rfl, Ne.symm hne, other, hfind, v, hv, w, hw, hvw.symm, rfl⟩
  · obtain ⟨s, o, t, details⟩ := d
    rintro ⟨rfl, rfl, hne, other, hfind, v, hv, w, hw, hvw, rfl⟩
    exact ⟨v, hv, (o, other), ⟨hfind, Ne.symm hne⟩, w, ⟨hw, hvw.symm⟩, rfl⟩

/-- A record is one of four. -/
theorem mem_serviceDeps : d ∈ serviceDeps compose name service ↔
    d ∈ explicitDeps name service ∨ d ∈ networkModeDeps name service ∨
      d ∈ sharedNetworkDeps compose name service ∨ d ∈ sharedVolumeDeps compose name service := by
  simp only [serviceDeps, List.mem_append, or_assoc]

theorem mem_extractDependencies : d ∈ extractDependencies compose ↔
    ∃ a x, compose.services.find? a = some x ∧ d ∈ serviceDeps compose a x := by
  rw [extractDependencies, List.mem_flatMap]
  constructor
  · rintro ⟨⟨a, x⟩, hmem, hd⟩
    exact ⟨a, x, OrdMap.mem_entries.1 hmem, hd⟩
  · rintro ⟨a, x, hfind, hd⟩
    exact ⟨(a, x), OrdMap.mem_entries.2 hfind, hd⟩

end

/-! ## The records of a file -/

section

variable {compose : ComposeFile} {type a b : Bytes}

/-- The record that is there, by its type. The fourth kind goes by the texts before the
colon, whether there is one or not. -/
theorem reports_iff : compose.Reports type a b ↔
    ∃ x, compose.services.find? a = some x ∧
      ((type = bytes "depends_on" ∧ b ∈ x.dependsOn) ∨
        (type = bytes "network_mode" ∧ x.networkMode = bytes "service:" ++ b) ∨
        (type = bytes "shared_network" ∧ a ≠ b ∧ ∃ y, compose.services.find? b = some y ∧
          ∃ n ∈ x.networks, n ∈ y.networks) ∨
        (type = bytes "shared_volume" ∧ a ≠ b ∧ ∃ y, compose.services.find? b = some y ∧
          ∃ v ∈ x.volumes, ∃ w ∈ y.volumes, volumeName v = volumeName w)) := by
  constructor
  · rintro ⟨d, hd, rfl, rfl, rfl⟩
    obtain ⟨name, x, hfind, hd⟩ := mem_extractDependencies.1 hd
    rcases mem_serviceDeps.1 hd with h | h | h | h
    · obtain ⟨rfl, htype, hdep, -⟩ := mem_explicitDeps.1 h
      exact ⟨x, hfind, Or.inl ⟨htype, hdep⟩⟩
    · obtain ⟨rfl, htype, hmode, -⟩ := mem_networkModeDeps.1 h
      exact ⟨x, hfind, Or.inr (Or.inl ⟨htype, hmode⟩)⟩
    · obtain ⟨rfl, htype, hne, y, hy, n, hn, hny, -⟩ := mem_sharedNetworkDeps.1 h
      exact ⟨x, hfind, Or.inr (Or.inr (Or.inl ⟨htype, hne, y, hy, n, hn, hny⟩))⟩
    · obtain ⟨rfl, htype, hne, y, hy, v, hv, w, hw, hvw, -⟩ := mem_sharedVolumeDeps.1 h
      exact ⟨x, hfind, Or.inr (Or.inr (Or.inr ⟨htype, hne, y, hy, v, hv, w, hw, hvw⟩))⟩
  · rintro ⟨x, hx, ⟨rfl, hb⟩ | ⟨rfl, hmode⟩ | ⟨rfl, hne, y, hy, n, hn, hny⟩ |
      ⟨rfl, hne, y, hy, v, hv, w, hw, hvw⟩⟩
    · exact ⟨⟨a, b, _, _⟩, mem_extractDependencies.2 ⟨a, x, hx, mem_serviceDeps.2
        (Or.inl (mem_explicitDeps.2 ⟨rfl, rfl, hb, rfl⟩))⟩, rfl, rfl, rfl⟩
    · exact ⟨⟨a, b, _, bytes "Uses network stack of " ++ b⟩, mem_extractDependencies.2
        ⟨a, x, hx, mem_serviceDeps.2
          (Or.inr (Or.inl (mem_networkModeDeps.2 ⟨rfl, rfl, hmode, rfl⟩)))⟩, rfl, rfl, rfl⟩
    · exact ⟨⟨a, b, _, _⟩, mem_extractDependencies.2 ⟨a, x, hx, mem_serviceDeps.2
        (Or.inr (Or.inr (Or.inl (mem_sharedNetworkDeps.2
          ⟨rfl, rfl, hne, y, hy, n, hn, hny, rfl⟩))))⟩, rfl, rfl, rfl⟩
    · exact ⟨⟨a, b, _, _⟩, mem_extractDependencies.2 ⟨a, x, hx, mem_serviceDeps.2
        (Or.inr (Or.inr (Or.inr (mem_sharedVolumeDeps.2
          ⟨rfl, rfl, hne, y, hy, v, hv, w, hw, hvw, rfl⟩))))⟩, rfl, rfl, rfl⟩

theorem reports_dependsOn : compose.Reports (bytes "depends_on") a b ↔
    ∃ x, compose.services.find? a = some x ∧ b ∈ x.dependsOn := by
  have hm : bytes "depends_on" ≠ bytes "network_mode" := by decide
  have hn : bytes "depends_on" ≠ bytes "shared_network" := by decide
  have hv : bytes "depends_on" ≠ bytes "shared_volume" := by decide
  simp only [reports_iff, hm, hn, hv, true_and, false_and, or_false]

theorem reports_networkMode : compose.Reports (bytes "network_mode") a b ↔
    ∃ x, compose.services.find? a = some x ∧ x.networkMode = bytes "service:" ++ b := by
  have hd : bytes "network_mode" ≠ bytes "depends_on" := by decide
  have hn : bytes "network_mode" ≠ bytes "shared_network" := by decide
  have hv : bytes "network_mode" ≠ bytes "shared_volume" := by decide
  simp only [reports_iff, hd, hn, hv, true_and, false_and, false_or, or_false]

theorem reports_sharedNetwork : compose.Reports (bytes "shared_network") a b ↔
    compose.NetworksTogether a b := by
  have hd : bytes "shared_network" ≠ bytes "depends_on" := by decide
  have hm : bytes "shared_network" ≠ bytes "network_mode" := by decide
  have hv : bytes "shared_network" ≠ bytes "shared_volume" := by decide
  simp only [reports_iff, hd, hm, hv, true_and, false_and, false_or, or_false]
  constructor
  · rintro ⟨x, hx, hne, y, hy, h⟩
    exact ⟨hne, x, y, hx, hy, h⟩
  · rintro ⟨hne, x, y, hx, hy, h⟩
    exact ⟨x, hx, hne, y, hy, h⟩

theorem reports_sharedVolume : compose.Reports (bytes "shared_volume") a b ↔
    compose.EntriesAgree a b := by
  have hd : bytes "shared_volume" ≠ bytes "depends_on" := by decide
  have hm : bytes "shared_volume" ≠ bytes "network_mode" := by decide
  have hn : bytes "shared_volume" ≠ bytes "shared_network" := by decide
  simp only [reports_iff, hd, hm, hn, true_and, false_and, false_or]
  constructor
  · rintro ⟨x, hx, hne, y, hy, h⟩
    exact ⟨hne, x, y, hx, hy, h⟩
  · rintro ⟨hne, x, y, hx, hy, h⟩
    exact ⟨x, hx, hne, y, hy, h⟩

theorem reports_type (h : compose.Reports type a b) :
    type ∈ [bytes "depends_on", bytes "network_mode", bytes "shared_network",
      bytes "shared_volume"] := by
  obtain ⟨x, -, ⟨rfl, -⟩ | ⟨rfl, -⟩ | ⟨rfl, -⟩ | ⟨rfl, -⟩⟩ := reports_iff.1 h
  · decide
  · decide
  · decide
  · decide

theorem ComposeFile.NetworksTogether.symm (h : compose.NetworksTogether a b) :
    compose.NetworksTogether b a := by
  obtain ⟨hne, x, y, hx, hy, n, hn, hny⟩ := h
  exact ⟨hne.symm, y, x, hy, hx, n, hny, hn⟩

theorem ComposeFile.EntriesAgree.symm (h : compose.EntriesAgree a b) :
    compose.EntriesAgree b a := by
  obtain ⟨hne, x, y, hx, hy, v, hv, w, hw, hvw⟩ := h
  exact ⟨hne.symm, y, x, hy, hx, w, hw, v, hv, hvw.symm⟩

theorem ComposeFile.MountsTogether.entriesAgree (h : compose.MountsTogether a b) :
    compose.EntriesAgree a b := by
  obtain ⟨hne, x, y, hx, hy, v, hv, w, hw, -, -, hvw⟩ := h
  exact ⟨hne, x, y, hx, hy, v, hv, w, hw, hvw⟩

end

/-- Services whose entries agree mount a volume together: where an entry without a colon
has the text of another service's entry, the two share a volume by other entries too. -/
def ComposeFile.AnonymousApart (compose : ComposeFile) : Prop :=
  ∀ a x b y, compose.services.find? a = some x → compose.services.find? b = some y → a ≠ b →
    ∀ v ∈ x.volumes, ∀ w ∈ y.volumes, volumeName v = volumeName w →
      colon ∉ v ∨ colon ∉ w → compose.MountsTogether a b

/-- Everything but the volumes is reported exactly for every file, and the volumes are
unless an anonymous one is taken for another. -/
theorem extractDependencies_exact_iff (compose : ComposeFile) :
    compose.ReportedExactly ↔ compose.AnonymousApart := by
  constructor
  · intro h a x b y hx hy hne v hv w hw hvw _
    exact (h.sharedVolume a b).1
      (reports_sharedVolume.2 ⟨hne, x, y, hx, hy, v, hv, w, hw, hvw⟩)
  · intro h
    have hvolumes : ∀ a b, compose.EntriesAgree a b ↔ compose.MountsTogether a b := by
      intro a b
      refine ⟨?_, ComposeFile.MountsTogether.entriesAgree⟩
      rintro ⟨hne, x, y, hx, hy, v, hv, w, hw, hvw⟩
      by_cases hcolon : colon ∈ v ∧ colon ∈ w
      · exact ⟨hne, x, y, hx, hy, v, hv, w, hw, hcolon.1, hcolon.2, hvw⟩
      · exact h a x b y hx hy hne v hv w hw hvw (not_and_or.1 hcolon)
    exact {
      explicit := fun a b => reports_dependsOn
      networkMode := fun a b => reports_networkMode
      sharedNetwork := fun a b => reports_sharedNetwork
      sharedVolume := fun a b => reports_sharedVolume.trans (hvolumes a b)
      noOther := fun type a b => reports_type
      symmetric := by
        intro type htype a b hab
        rcases List.mem_pair.1 htype with rfl | rfl
        · exact reports_sharedNetwork.2 (reports_sharedNetwork.1 hab).symm
        · exact reports_sharedVolume.2 (reports_sharedVolume.1 hab).symm
      irreflexive := by
        intro type htype a haa
        rcases List.mem_pair.1 htype with rfl | rfl
        · exact (reports_sharedNetwork.1 haa).1 rfl
        · exact (reports_sharedVolume.1 haa).1 rfl }

/-- Two services with an anonymous volume at the same place. -/
def twoCaches : Bytes :=
  bytes "services:\n  web:\n    volumes:\n      - /cache\n  api:\n    volumes:\n      - /cache\n"

/-- They share nothing, and each is reported to share the other's volume. -/
theorem anonymous_reported : ∃ compose, parse twoCaches = some compose ∧
    compose.Reports (bytes "shared_volume") (bytes "web") (bytes "api") ∧
      ¬ compose.ReportedExactly := by
  have hreported : (extractDependencies (parseLines (getLines twoCaches))).any (fun d =>
      d.type = bytes "shared_volume" ∧ d.service = bytes "web" ∧ d.dependsOn = bytes "api") =
        true := by decide +kernel
  have hcolon : ((parseLines (getLines twoCaches)).services.entries.all fun e =>
      e.2.volumes.all fun v => decide (colon ∉ v)) = true := by decide +kernel
  have hreports : (parseLines (getLines twoCaches)).Reports (bytes "shared_volume")
      (bytes "web") (bytes "api") := by
    obtain ⟨d, hd, h⟩ := List.any_eq_true.1 hreported
    exact ⟨d, hd, of_decide_eq_true h⟩
  refine ⟨_, rfl, hreports, fun hexact => ?_⟩
  obtain ⟨-, x, y, hx, -, v, hv, -, -, hv', -, -⟩ := (hexact.sharedVolume _ _).1 hreports
  have hx := List.all_eq_true.1 hcolon _ (OrdMap.mem_entries.2 hx)
  exact of_decide_eq_true (List.all_eq_true.1 hx v hv) hv'

end Nazg.Docker

import Nazg.Lib.OrdMap
import Nazg.Lib.Bytes

/-!
# Compose files and the dependencies read off them

The data `compose_parser.hpp` declares and the pass that turns a parsed file
into dependencies. A service depends on what it names under `depends_on`, on the
service whose network stack it borrows, on every other service it shares a
network with and on every other service it shares a volume with, in that order;
the services themselves are visited in key order, as a `std::map` is.
-/

namespace Nazg.Docker

open Lib

structure ComposeService where
  name : Bytes
  image : Bytes
  containerName : Bytes
  dependsOn : List Bytes
  networkMode : Bytes
  networks : List Bytes
  networkStaticIps : OrdMap Bytes Bytes
  volumes : List Bytes
  environment : OrdMap Bytes Bytes
  restartPolicy : Bytes
  privileged : Bool

/-- A default-constructed service. -/
def ComposeService.init : ComposeService where
  name := []
  image := []
  containerName := []
  dependsOn := []
  networkMode := []
  networks := []
  networkStaticIps := .empty
  volumes := []
  environment := .empty
  restartPolicy := []
  privileged := false

structure ComposeNetwork where
  name : Bytes
  driver : Bytes
  external : Bool

structure ComposeFile where
  version : Bytes
  services : OrdMap Bytes ComposeService
  networks : OrdMap Bytes ComposeNetwork
  volumes : OrdMap Bytes Bytes

def ComposeFile.init : ComposeFile := ⟨[], .empty, .empty, .empty⟩

/-- Dependency relationship discovered from a compose file. -/
structure DetectedDependency where
  service : Bytes
  dependsOn : Bytes
  type : Bytes
  details : Bytes
  deriving DecidableEq

/-- The part of a volume entry before its first colon. -/
def volumeName (volume : Bytes) : Bytes := volume.takeWhile (· ≠ ':'.toUInt8)

/-- `network_mode: "service:x"` names the service `x`. -/
def networkModeTarget (mode : Bytes) : Option Bytes :=
  if mode ≠ [] ∧ mode.take 8 = bytes "service:" then some (mode.drop 8) else none

/-- The services of the file other than the named one. -/
def ComposeFile.others (compose : ComposeFile) (name : Bytes) : List (Bytes × ComposeService) :=
  compose.services.entries.filter fun e => e.1 ≠ name

def explicitDeps (name : Bytes) (service : ComposeService) : List DetectedDependency :=
  service.dependsOn.map fun dep =>
    { service := name, dependsOn := dep, type := bytes "depends_on"
      details := bytes "Explicit dependency in compose file" }

def networkModeDeps (name : Bytes) (service : ComposeService) : List DetectedDependency :=
  (networkModeTarget service.networkMode).toList.map fun dep =>
    { service := name, dependsOn := dep, type := bytes "network_mode"
      details := bytes "Uses network stack of " ++ dep }

def sharedNetworkDetails (service : ComposeService) (network : Bytes) : Bytes :=
  bytes "Both on network: " ++ network ++
    match service.networkStaticIps.find? network with
    | some ip => bytes " (static IP: " ++ ip ++ bytes ")"
    | none => []

def sharedNetworkDeps (compose : ComposeFile) (name : Bytes) (service : ComposeService) :
    List DetectedDependency :=
  service.networks.flatMap fun network =>
    ((compose.others name).filter fun other => network ∈ other.2.networks).map fun other =>
      { service := name, dependsOn := other.1, type := bytes "shared_network"
        details := sharedNetworkDetails service network }

def sharedVolumeDeps (compose : ComposeFile) (name : Bytes) (service : ComposeService) :
    List DetectedDependency :=
  service.volumes.flatMap fun volume =>
    (compose.others name).flatMap fun other =>
      (other.2.volumes.filter fun v => volumeName v = volumeName volume).map fun _ =>
        { service := name, dependsOn := other.1, type := bytes "shared_volume"
          details := bytes "Both use volume: " ++ volumeName volume }

/-- The dependencies of one service, in the order they are pushed. -/
def serviceDeps (compose : ComposeFile) (name : Bytes) (service : ComposeService) :
    List DetectedDependency :=
  explicitDeps name service ++ networkModeDeps name service ++
    (sharedNetworkDeps compose name service ++ sharedVolumeDeps compose name service)

/-- `ComposeParser::extract_dependencies`. -/
def extractDependencies (compose : ComposeFile) : List DetectedDependency :=
  compose.services.entries.flatMap fun e => serviceDeps compose e.1 e.2

/-! ## What the pass reports -/

/-- `service` names `d` under `depends_on` or borrows its network stack. -/
def ComposeService.Needs (service : ComposeService) (d : Bytes) : Prop :=
  d ∈ service.dependsOn ∨ networkModeTarget service.networkMode = some d

/-- `s` and `o` are two services of the file with a network or a volume in common. -/
def ComposeFile.Shares (compose : ComposeFile) (s o : Bytes) : Prop :=
  s ≠ o ∧ ∃ a b, compose.services.find? s = some a ∧ compose.services.find? o = some b ∧
    ((∃ n ∈ a.networks, n ∈ b.networks) ∨
      ∃ v ∈ a.volumes, ∃ w ∈ b.volumes, volumeName w = volumeName v)

theorem mem_others {compose : ComposeFile} {name : Bytes} {e : Bytes × ComposeService} :
    e ∈ compose.others name ↔ compose.services.find? e.1 = some e.2 ∧ e.1 ≠ name := by
  obtain ⟨k, v⟩ := e
  simp [ComposeFile.others, OrdMap.mem_entries]

/-- The types a dependency comes with. -/
inductive DepKind where
  | hard
  | soft
  deriving DecidableEq

/-- `depends_on` and `network_mode` are the two start-order types the pass produces. -/
def DetectedDependency.kind (d : DetectedDependency) : DepKind :=
  if d.type = bytes "depends_on" ∨ d.type = bytes "network_mode" then .hard else .soft

theorem mem_hardDeps {name : Bytes} {service : ComposeService} {d : DetectedDependency}
    (h : d ∈ explicitDeps name service ++ networkModeDeps name service) :
    d.service = name ∧ d.kind = .hard ∧ service.Needs d.dependsOn := by
  rcases List.mem_append.1 h with h | h
  · obtain ⟨dep, hdep, rfl⟩ := List.mem_map.1 h
    exact ⟨rfl, by rfl, Or.inl hdep⟩
  · obtain ⟨dep, hdep, rfl⟩ := List.mem_map.1 h
    exact ⟨rfl, by rfl, Or.inr (Option.mem_toList.1 hdep)⟩

theorem exists_hardDep {service : ComposeService} {d : Bytes} (name : Bytes)
    (h : service.Needs d) :
    ∃ x ∈ explicitDeps name service ++ networkModeDeps name service,
      x.service = name ∧ x.dependsOn = d ∧ x.kind = .hard := by
  rcases h with h | h
  · exact ⟨_, List.mem_append_left _ (List.mem_map_of_mem h), rfl, rfl, by rfl⟩
  · exact ⟨_, List.mem_append_right _ (List.mem_map_of_mem (Option.mem_toList.2 h)), rfl, rfl,
      by rfl⟩

theorem mem_softDeps {compose : ComposeFile} {name : Bytes} {service : ComposeService}
    {d : DetectedDependency} (hs : compose.services.find? name = some service)
    (h : d ∈ sharedNetworkDeps compose name service ++ sharedVolumeDeps compose name service) :
    d.service = name ∧ d.kind = .soft ∧ compose.Shares name d.dependsOn := by
  rcases List.mem_append.1 h with h | h
  · obtain ⟨network, hn, h⟩ := List.mem_flatMap.1 h
    obtain ⟨other, ho, rfl⟩ := List.mem_map.1 h
    obtain ⟨ho, hon⟩ := List.mem_filter.1 ho
    obtain ⟨hfind, hne⟩ := mem_others.1 ho
    exact ⟨rfl, by rfl, Ne.symm hne, service, other.2, hs, hfind,
      Or.inl ⟨network, hn, by simpa using hon⟩⟩
  · obtain ⟨volume, hv, h⟩ := List.mem_flatMap.1 h
    obtain ⟨other, ho, h⟩ := List.mem_flatMap.1 h
    obtain ⟨w, hw, rfl⟩ := List.mem_map.1 h
    obtain ⟨hw, heq⟩ := List.mem_filter.1 hw
    obtain ⟨hfind, hne⟩ := mem_others.1 ho
    exact ⟨rfl, by rfl, Ne.symm hne, service, other.2, hs, hfind,
      Or.inr ⟨volume, hv, w, hw, by simpa using heq⟩⟩

theorem exists_softDep {compose : ComposeFile} {name o : Bytes} (h : compose.Shares name o) :
    ∃ service, compose.services.find? name = some service ∧
      ∃ x ∈ sharedNetworkDeps compose name service ++ sharedVolumeDeps compose name service,
        x.service = name ∧ x.dependsOn = o ∧ x.kind = .soft := by
  obtain ⟨hne, a, b, ha, hb, hshare⟩ := h
  have hother : (o, b) ∈ compose.others name := mem_others.2 ⟨hb, Ne.symm hne⟩
  refine ⟨a, ha, ?_⟩
  rcases hshare with ⟨n, hna, hnb⟩ | ⟨v, hv, w, hw, hvw⟩
  · refine ⟨_, List.mem_append_left _ (List.mem_flatMap.2 ⟨n, hna, List.mem_map.2
      ⟨(o, b), List.mem_filter.2 ⟨hother, by simpa using hnb⟩, rfl⟩⟩), rfl, rfl, by rfl⟩
  · refine ⟨_, List.mem_append_right _ (List.mem_flatMap.2 ⟨v, hv, List.mem_flatMap.2
      ⟨(o, b), hother, List.mem_map.2 ⟨w, List.mem_filter.2 ⟨hw, by simpa using hvw⟩, rfl⟩⟩⟩),
      rfl, rfl, by rfl⟩

end Nazg.Docker

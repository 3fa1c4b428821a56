import Nazg.Lib.Words
import Nazg.Workspace.Diff

/-!
# Comparing two snapshots

Beside the files a snapshot has the environment, what is known of the system, and the
checksums of the manifests, each by name. A name that one of the snapshots does not have
counts as one with the value `(missing)`.

The keys are gone over in the order of a hash table; the changes are a map, so this order
means nothing.
-/

namespace Nazg.Workspace

open Lib

/-- A snapshot, as far as it is compared. -/
structure WorkspaceSnapshot where
  id : Int
  files : List WorkspaceFile
  envSnapshot : OrdMap Bytes Bytes
  systemInfo : OrdMap Bytes Bytes
  depsManifestHash : Bytes

/-- `parse_manifest_hashes`. -/
def parseManifestHashes (combined : Bytes) : OrdMap Bytes Bytes :=
  (getFields 59 combined).foldl (fun result entry =>
    match cut 58 entry with
    | some (key, value) => if value = [] then result else result.insert key value
    | none => result) .empty

def missing : Bytes := bytes "(missing)"

/-- The value at a key, as it is compared. -/
def valueAt (m : OrdMap Bytes Bytes) (key : Bytes) : Bytes := (m.find? key).getD missing

/-- The keys of two maps whose values differ, with both values. -/
def keyChanges (old new : OrdMap Bytes Bytes) : OrdMap Bytes Bytes :=
  (old.keys ++ new.keys).dedup.foldl (fun changes key =>
    if valueAt old key ≠ valueAt new key then
      changes.insert key (valueAt old key ++ bytes " -> " ++ valueAt new key)
    else changes) .empty

/-- A comparison with the keys. -/
structure WorkspaceDiff extends SnapshotDiff where
  snapshotAId : Int
  snapshotBId : Int
  depUpgrades : OrdMap Bytes Bytes
  envChanges : OrdMap Bytes Bytes
  systemInfoChanges : OrdMap Bytes Bytes

/-- The whole of `compute_snapshot_diff`. -/
def computeWorkspaceDiff (a b : WorkspaceSnapshot) : WorkspaceDiff where
  toSnapshotDiff := computeSnapshotDiff a.files b.files
  snapshotAId := a.id
  snapshotBId := b.id
  envChanges := keyChanges a.envSnapshot b.envSnapshot
  systemInfoChanges := keyChanges a.systemInfo b.systemInfo
  depUpgrades :=
    keyChanges (parseManifestHashes a.depsManifestHash) (parseManifestHashes b.depsManifestHash)

theorem valueAt_of_notMem {m : OrdMap Bytes Bytes} {key : Bytes} (h : key ∉ m.keys) :
    valueAt m key = missing := by
  rw [valueAt, OrdMap.find?_eq_none.2 h]
  rfl

theorem find?_foldl_changes (p : Bytes → Prop) [DecidablePred p] (f : Bytes → Bytes)
    (keys : List Bytes) (m : OrdMap Bytes Bytes) (key : Bytes) :
    (keys.foldl (fun changes k => if p k then changes.insert k (f k) else changes) m).find? key =
      if key ∈ keys ∧ p key then some (f key) else m.find? key := by
  induction keys generalizing m with
  | nil => simp
  | cons k keys ih =>
      rw [List.foldl_cons, ih]
      by_cases hlater : key ∈ keys ∧ p key
      · rw [if_pos hlater, if_pos ⟨List.mem_cons_of_mem _ hlater.1, hlater.2⟩]
      · rw [if_neg hlater]
        by_cases hk : key = k
        · subst hk
          by_cases hp : p key
          · rw [if_pos hp, OrdMap.find?_insert, if_pos rfl, if_pos ⟨List.mem_cons_self, hp⟩]
          · rw [if_neg hp, if_neg fun h => hp h.2]
        · have hnot : ¬ (key ∈ k :: keys ∧ p key) := fun h =>
            hlater ⟨(List.mem_cons.1 h.1).resolve_left hk, h.2⟩
          rw [if_neg hnot]
          split
          · rw [OrdMap.find?_insert, if_neg hk]
          · rfl

/-- A key is reported if its values differ. -/
theorem find?_keyChanges (old new : OrdMap Bytes Bytes) (key : Bytes) :
    (keyChanges old new).find? key =
      if valueAt old key ≠ valueAt new key then
        some (valueAt old key ++ bytes " -> " ++ valueAt new key)
      else none := by
  rw [keyChanges, find?_foldl_changes (fun key => valueAt old key ≠ valueAt new key)]
  refine if_congr ⟨And.right, fun hne => ⟨?_, hne⟩⟩ rfl rfl
  rw [List.mem_dedup, List.mem_append]
  by_contra hkeys
  obtain ⟨hold, hnew⟩ := not_or.1 hkeys
  exact hne (by rw [valueAt_of_notMem hold, valueAt_of_notMem hnew])

theorem mem_keys_keyChanges {old new : OrdMap Bytes Bytes} {key : Bytes} :
    key ∈ (keyChanges old new).keys ↔ valueAt old key ≠ valueAt new key := by
  rw [OrdMap.mem_keys, find?_keyChanges]
  split
  · next h => exact iff_of_true ⟨_, rfl⟩ h
  · next h => exact iff_of_false (by simp) h

/-!
## The environment of a snapshot

A snapshot keeps the variables that matter to a build as a text that looks like JSON. The
writer escapes nothing; the reader takes the text from quote to quote, as a name and a value
in turn.
-/

/-- `getenv`: the values of variables have no terminator inside. -/
abbrev Environment := Bytes → Option Text

def relevantVars : List Bytes :=
  [bytes "CC", bytes "CXX", bytes "CFLAGS", bytes "CXXFLAGS", bytes "LDFLAGS",
    bytes "CMAKE_BUILD_TYPE", bytes "BUILD_TYPE",
    bytes "PATH", bytes "LD_LIBRARY_PATH",
    bytes "CARGO_HOME", bytes "RUSTC", bytes "RUSTFLAGS",
    bytes "GOPATH", bytes "GOROOT",
    bytes "JAVA_HOME", bytes "MAVEN_HOME",
    bytes "NODE_ENV", bytes "NPM_CONFIG_PREFIX"]

/-- A name and its value, as they are written. -/
def entryText (e : Bytes × Bytes) : Bytes :=
  bytes "\"" ++ e.1 ++ bytes "\":\"" ++ e.2 ++ bytes "\""

/-- The variables that are set. -/
def setVars (env : Environment) : List (Bytes × Bytes) :=
  relevantVars.filterMap fun var => (env var).map fun value => (var, value.bytes)

/-- `capture_environment`. -/
def captureEnvironment (env : Environment) : Bytes :=
  bytes "\x7b" ++ (bytes ",").intercalate ((setVars env).map entryText) ++ bytes "\x7d"

/-- One turn of the loop of `parse_simple_json_map`: a name, a value and the rest. -/
def nextEntry (s : Bytes) : Option (Bytes × Bytes × Bytes) := do
  let (_, s) ← cut 34 s
  let (key, s) ← cut 34 s
  let (_, s) ← cut 58 s
  let (_, s) ← cut 34 s
  let (value, s) ← cut 34 s
  some (key, value, s)

/-- The turns; each takes some of the text, which bounds them. -/
def parseEntries : Nat → Bytes → OrdMap Bytes Bytes → OrdMap Bytes Bytes
  | 0, _, result => result
  | fuel + 1, s, result =>
      match nextEntry s with
      | some (key, value, rest) => parseEntries fuel rest (result.insert key value)
      | none => result

def parseSimpleJsonMap (json : Bytes) : OrdMap Bytes Bytes :=
  parseEntries json.length json .empty

/-- The environment's part of `diff_current`, for a snapshot with this text in the store. -/
def diffCurrentEnvironment (stored : Text) (env : Environment) : OrdMap Bytes Bytes :=
  keyChanges (parseSimpleJsonMap (captureEnvironment env)) (parseSimpleJsonMap stored.bytes)

end Nazg.Workspace

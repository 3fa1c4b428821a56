import Nazg.Brain.Detector

/-!
# Facts of the last detection

Each detection sets its facts one by one and removes none. What it has nothing to say about,
the tools of a project without any or the tests of one without tests, stays as an earlier
detection left it.

`describesLast_iff` says which sequences of detections leave nothing behind.
-/

namespace Nazg.Brain

open Lib Nexus

def detectorKeys : List Bytes :=
  [bytes "language", bytes "build_system", bytes "scm", bytes "has_cmake", bytes "has_git",
    bytes "tools", bytes "has_tests", bytes "test_framework", bytes "test_directory"]

/-- What a detection says under a key. -/
def derived (info : DetectedProject) (key : Bytes) : Option Bytes :=
  OrdMap.lookup key (detectorFacts info)

/-- What is listed under a key. -/
def listedFact (projectId : Int64) (facts : Facts) (key : Bytes) : Option Bytes :=
  (listFacts projectId (bytes "detector") facts).find? key

/-- The facts after detections, each with its time. -/
def afterDetections (projectId : Int64) (facts : Facts)
    (detections : List (Int × DetectedProject)) : Facts :=
  detections.foldl (fun facts d => storeFacts d.1 projectId d.2 facts) facts

/-! ## One detection -/

theorem keys_sublist (info : DetectedProject) :
    ((detectorFacts info).map Prod.fst).Sublist detectorKeys := by
  rw [detectorFacts]
  split <;> split <;> (try split)
  all_goals
    simp only [List.map_append, List.map_cons, List.map_nil, List.append_nil]
    decide +kernel

theorem nodup_detectorKeys : detectorKeys.Nodup := by
  decide +kernel

theorem cstr_of_mem_detectorKeys : ∀ key ∈ detectorKeys, cstr key = key := by
  decide +kernel

section

variable {projectId : Int64} {facts : Facts}

theorem projects_foldl_setFact (now : Int) (writes : List (Bytes × Bytes)) :
    (writes.foldl (fun facts fact =>
      setFact now projectId (bytes "detector") fact.1 fact.2 facts) facts).projects =
        facts.projects := by
  induction writes generalizing facts with
  | nil => rfl
  | cons fact writes ih => rw [List.foldl_cons, ih, projects_setFact]

theorem listedFact_foldl_setFact (hproject : projectId ∈ facts.projects) (now : Int)
    {writes : List (Bytes × Bytes)} (hnodup : (writes.map Prod.fst).Nodup)
    (hkeys : ∀ fact ∈ writes, cstr fact.1 = fact.1) (key : Bytes) :
    listedFact projectId (writes.foldl (fun facts fact =>
      setFact now projectId (bytes "detector") fact.1 fact.2 facts) facts) key =
        ((OrdMap.lookup key writes).map cstr).or (listedFact projectId facts key) := by
  induction writes generalizing facts with
  | nil => rfl
  | cons fact writes ih =>
      obtain ⟨hfact, hkeys⟩ := List.forall_mem_cons.1 hkeys
      rw [List.map_cons, List.nodup_cons] at hnodup
      rw [List.foldl_cons, ih (by rwa [projects_setFact]) hnodup.2 hkeys, listedFact,
        find?_setFact hproject, hfact, OrdMap.lookup]
      by_cases hkey : key = fact.1
      · have hlater : OrdMap.lookup key writes = none := OrdMap.lookup_eq_none.2 (hkey ▸ hnodup.1)
        rw [if_pos hkey, if_pos hkey, hlater]
        rfl
      · rw [if_neg hkey, if_neg hkey]
        rfl

/-- After a detection a key has what it says, or what was there. -/
theorem listedFact_storeFacts (hproject : projectId ∈ facts.projects) (now : Int)
    (info : DetectedProject) (key : Bytes) :
    listedFact projectId (storeFacts now projectId info facts) key =
      ((derived info key).map cstr).or (listedFact projectId facts key) := by
  have hkeys : ∀ fact ∈ detectorFacts info, cstr fact.1 = fact.1 := fun fact hfact =>
    cstr_of_mem_detectorKeys _ ((keys_sublist info).subset (List.mem_map_of_mem hfact))
  exact listedFact_foldl_setFact hproject now ((keys_sublist info).nodup nodup_detectorKeys) hkeys
    key

theorem projects_storeFacts (now : Int) (info : DetectedProject) :
    (storeFacts now projectId info facts).projects = facts.projects :=
  projects_foldl_setFact now _

/-! ## A sequence of detections -/

theorem projects_afterDetections (detections : List (Int × DetectedProject)) :
    (afterDetections projectId facts detections).projects = facts.projects := by
  rw [afterDetections]
  induction detections generalizing facts with
  | nil => rfl
  | cons d detections ih => rw [List.foldl_cons, ih, projects_storeFacts]

/-- A key is free as long as it was and no detection has something to say about it. -/
theorem listedFact_afterDetections_eq_none (hproject : projectId ∈ facts.projects)
    (detections : List (Int × DetectedProject)) (key : Bytes) :
    listedFact projectId (afterDetections projectId facts detections) key = none ↔
      listedFact projectId facts key = none ∧ ∀ d ∈ detections, derived d.2 key = none := by
  rw [afterDetections]
  induction detections generalizing facts with
  | nil => simp
  | cons d detections ih =>
      rw [List.foldl_cons, ih (by rwa [projects_storeFacts]), listedFact_storeFacts hproject,
        List.forall_mem_cons, Option.or_eq_none_iff, Option.map_eq_none_iff, and_assoc,
        and_left_comm]

theorem listedFact_last (hproject : projectId ∈ facts.projects)
    (earlier : List (Int × DetectedProject)) (last : Int × DetectedProject) (key : Bytes) :
    listedFact projectId (afterDetections projectId facts (earlier ++ [last])) key =
      ((derived last.2 key).map cstr).or
        (listedFact projectId (afterDetections projectId facts earlier) key) := by
  have hproject' : projectId ∈ (afterDetections projectId facts earlier).projects := by
    rwa [projects_afterDetections]
  rw [← listedFact_storeFacts hproject' last.1, afterDetections, List.foldl_append]
  rfl

end

/-- The facts are those that the last detection leads to. -/
def DescribesLast (projectId : Int64) (facts : Facts) (earlier : List (Int × DetectedProject))
    (last : Int × DetectedProject) : Prop :=
  ∀ key ∈ detectorKeys,
    listedFact projectId (afterDetections projectId facts (earlier ++ [last])) key =
      derived last.2 key

/-- What the last detection says is stored whole, and what it does not say, no one said. -/
structure NothingLeft (projectId : Int64) (facts : Facts)
    (earlier : List (Int × DetectedProject)) (last : Int × DetectedProject) : Prop where
  whole : ∀ fact ∈ detectorFacts last.2, (0 : UInt8) ∉ fact.2
  unsaid : ∀ key ∈ detectorKeys, derived last.2 key = none →
    listedFact projectId facts key = none ∧ ∀ d ∈ earlier, derived d.2 key = none

/-- The facts describe the last detection exactly if none of them is left from before it. -/
theorem describesLast_iff {projectId : Int64} {facts : Facts}
    (hproject : projectId ∈ facts.projects) (earlier : List (Int × DetectedProject))
    (last : Int × DetectedProject) :
    DescribesLast projectId facts earlier last ↔ NothingLeft projectId facts earlier last := by
  have hnodup := (keys_sublist last.2).nodup nodup_detectorKeys
  constructor
  · intro h
    constructor
    · intro fact hfact
      have hkey := (keys_sublist last.2).subset (List.mem_map_of_mem hfact)
      have hsaid : derived last.2 fact.1 = some fact.2 := OrdMap.lookup_of_mem hnodup hfact
      have hlisted := h _ hkey
      rw [listedFact_last hproject, hsaid, Option.map_some, Option.some_or] at hlisted
      exact cstr_eq_self.1 (Option.some.inj hlisted)
    · intro key hkey hunsaid
      have hlisted := h key hkey
      rw [listedFact_last hproject, hunsaid, Option.map_none, Option.none_or] at hlisted
      exact (listedFact_afterDetections_eq_none hproject earlier key).1 hlisted
  · rintro ⟨hwhole, hunsaid⟩ key hkey
    rw [listedFact_last hproject]
    cases hderived : derived last.2 key with
    | none =>
        rw [Option.map_none, Option.none_or]
        exact (listedFact_afterDetections_eq_none hproject earlier key).2
          (hunsaid key hkey hderived)
    | some value =>
        have hnul := hwhole _ (OrdMap.mem_of_lookup hderived)
        rw [Option.map_some, Option.some_or, cstr_eq_self.2 hnul]

/-! ## Tests that were removed -/

def noFacts : Facts := ⟨[1], .empty, List.nodup_nil⟩

/-- A project in Rust, which has tests. -/
def rustProject : DetectedProject where
  rootPath := bytes "/home/dev/tool"
  buildSystem := bytes "cargo"
  testFramework := bytes "cargo"
  hasTests := true
  language := bytes "rust"
  scm := bytes "git"
  tools := [bytes "git"]
  hasCmake := false
  hasMakefile := false
  hasGit := true

/-- The same, before its first commit and without its manifest. -/
def emptyProject : DetectedProject :=
  { rustProject with
    buildSystem := bytes "unknown", testFramework := [], hasTests := false
    scm := bytes "none", tools := [], hasGit := false }

theorem describesLast_iff_rust : (1 : Int64) ∈ noFacts.projects ∧
    (DescribesLast 1 noFacts [] (1700000000, rustProject) ↔
      NothingLeft 1 noFacts [] (1700000000, rustProject)) :=
  ⟨by decide, describesLast_iff (by decide) [] (1700000000, rustProject)⟩

/-- The project keeps its tests in the facts. -/
theorem rust_not_describesLast :
    listedFact 1 (afterDetections 1 noFacts
      ([(1700000000, rustProject)] ++ [(1700000060, emptyProject)])) (bytes "has_tests") =
        some (bytes "true") ∧
      ¬ DescribesLast 1 noFacts [(1700000000, rustProject)] (1700000060, emptyProject) := by
  have hfirst : derived rustProject (bytes "has_tests") = some (bytes "true") := by decide +kernel
  have hsecond : derived emptyProject (bytes "has_tests") = none := by decide +kernel
  have hlisted : listedFact 1 (afterDetections 1 noFacts
      ([(1700000000, rustProject)] ++ [(1700000060, emptyProject)])) (bytes "has_tests") =
        some (bytes "true") := by
    rw [listedFact_last (by decide), hsecond, Option.map_none, Option.none_or,
      ← List.nil_append [(1700000000, rustProject)], listedFact_last (by decide), hfirst]
    decide +kernel
  refine ⟨hlisted, fun h => ?_⟩
  have hlast := h (bytes "has_tests") (by decide +kernel)
  rw [hlisted, hsecond] at hlast
  cases hlast

end Nazg.Brain

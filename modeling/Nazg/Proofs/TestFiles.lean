import Nazg.Brain.Detector

/-!
# Finding test files

A pattern has one star. It is understood at the front and at the back; with a star between
two parts only a file that is called like the pattern itself is found. Whether a file is in a
build directory is looked up in its whole path, that of the project included.

`findsTests_iff` says which files are found, and which Python projects have tests.
-/

namespace Nazg.Brain

open Lib Workspace

/-! ## Paths -/

theorem fileName_of_notMem {name : Bytes} (h : slash ∉ name) : fileName name = name := by
  have htake : name.reverse.takeWhile (fun c => c ≠ slash) = name.reverse := by
    refine List.takeWhile_eq_self_iff.2 fun c hc => decide_eq_true ?_
    rintro rfl
    exact h (List.mem_reverse.1 hc)
  rw [fileName, htake, List.reverse_reverse]

theorem fileName_append {name : Bytes} (h : slash ∉ name) (d : Bytes) :
    fileName (d ++ slash :: name) = name := by
  have htake : (d ++ slash :: name).reverse.takeWhile (fun c => c ≠ slash) = name.reverse := by
    rw [List.reverse_append, List.reverse_cons, List.append_assoc, List.singleton_append,
      List.takeWhile_append_of_pos]
    · simp
    · intro c hc
      refine decide_eq_true ?_
      rintro rfl
      exact h (List.mem_reverse.1 hc)
  rw [fileName, htake, List.reverse_reverse]

/-- A path is its last component, behind a slash if there is more of it. -/
theorem eq_fileName_or (d : Bytes) : d = fileName d ∨ ∃ u, d = u ++ slash :: fileName d := by
  have hsplit := List.takeWhile_append_dropWhile (p := fun c => decide (c ≠ slash)) (l := d.reverse)
  have hd := congrArg List.reverse hsplit
  rw [List.reverse_append, List.reverse_reverse, ← fileName] at hd
  cases hrest : d.reverse.dropWhile (fun c => decide (c ≠ slash)) with
  | nil =>
      rw [hrest] at hd
      exact .inl hd.symm
  | cons c rest =>
      have hc : c = slash := by
        have hhead := List.head?_dropWhile_not (fun c => decide (c ≠ slash)) d.reverse
        rw [hrest] at hhead
        simpa using hhead
      rw [hrest, hc, List.reverse_cons, List.append_assoc] at hd
      exact .inr ⟨rest.reverse, hd.symm⟩

/-- The file is below a directory of this name. -/
def Below (name file : Bytes) : Prop := ∃ d ∈ ancestors file, fileName d = name

/-- A name between slashes, as it is looked for. -/
def betweenSlashes (name : Bytes) : Bytes := slash :: (name ++ [slash])

theorem infix_below_iff {name : Bytes} (h : slash ∉ name) (file : Bytes) :
    betweenSlashes name <:+: slash :: file ↔ Below name file := by
  constructor
  · rintro ⟨s, t, heq⟩
    cases s with
    | nil =>
        refine ⟨name, mem_ancestors.2 ⟨t, ?_⟩, fileName_of_notMem h⟩
        exact (List.cons.inj heq).2
    | cons c s =>
        refine ⟨s ++ slash :: name, mem_ancestors.2 ⟨t, ?_⟩, fileName_append h s⟩
        rw [← (List.cons.inj heq).2]
        simp [betweenSlashes]
  · rintro ⟨d, hd, rfl⟩
    obtain ⟨t, rfl⟩ := mem_ancestors.1 hd
    rcases eq_fileName_or d with hname | ⟨u, hname⟩
    · refine ⟨[], t, ?_⟩
      rw [betweenSlashes, ← hname]
      simp
    · refine ⟨slash :: u, t, ?_⟩
      rw [betweenSlashes]
      conv_rhs => rw [hname]
      simp

/-- Between two parts of a path that meet at a slash, a name between slashes is in one of
them. -/
theorem infix_append_iff {name : Bytes} (h : slash ∉ name) (x y : Bytes) :
    betweenSlashes name <:+: x ++ slash :: y ↔
      betweenSlashes name <:+: x ++ [slash] ∨ betweenSlashes name <:+: slash :: y := by
  constructor
  · rintro ⟨s, t, heq⟩
    rw [List.append_assoc] at heq
    rcases List.append_eq_append_iff.1 heq with ⟨a, hx, hrest⟩ | ⟨a, hs, hrest⟩
    · cases a with
      | nil => exact .inr ⟨[], t, hrest⟩
      | cons c a =>
          -- The match begins before the last slash of the first part, and ends there at the latest.
          have hcons : slash :: (name ++ [slash] ++ t) = c :: (a ++ slash :: y) := hrest
          obtain ⟨rfl, hinner⟩ := List.cons.inj hcons
          rw [List.append_assoc, List.singleton_append] at hinner
          obtain ⟨r, hr⟩ : ∃ r, a ++ [slash] = name ++ [slash] ++ r := by
            rcases List.append_eq_append_iff.1 hinner with ⟨b, ha, hb⟩ | ⟨b, hname, hb⟩
            · cases b with
              | nil => exact ⟨[], by rw [ha]; simp⟩
              | cons c b =>
                  refine ⟨b ++ [slash], ?_⟩
                  rw [ha, ← (List.cons.inj hb).1]
                  simp
            · cases b with
              | nil => exact ⟨[], by rw [hname]; simp⟩
              | cons c b =>
                  refine absurd ?_ h
                  rw [hname, ← (List.cons.inj hb).1]
                  simp
          refine .inl ⟨s, r, ?_⟩
          rw [hx, betweenSlashes, List.append_assoc, List.append_assoc, List.cons_append,
            List.cons_append, hr]
    · exact .inr ⟨a, t, by rw [List.append_assoc, hrest]⟩
  · rintro (⟨s, t, heq⟩ | ⟨s, t, heq⟩)
    · exact ⟨s, t ++ y, by rw [← List.append_assoc, heq]; simp⟩
    · exact ⟨x ++ s, t, by rw [← heq]; simp⟩

/-! ## What is left out -/

/-- The file is in none of the directories that are left out. -/
def Outside (file : Bytes) : Prop :=
  ¬ Below (bytes "build") file ∧ ¬ Below (bytes "node_modules") file ∧ ¬ Below (bytes ".git") file

/-- The path of the project itself goes through no such directory. -/
def ProjectDir.Plain (dir : ProjectDir) : Prop :=
  ¬ bytes "/build/" <:+: dir.base ∧ ¬ bytes "/node_modules/" <:+: dir.base ∧
    ¬ bytes "/.git/" <:+: dir.base

theorem base_eq (dir : ProjectDir) : ∃ x, dir.base = x ++ [slash] := by
  rw [ProjectDir.base]
  split
  · next h =>
      obtain ⟨x, hx⟩ := List.getLast?_eq_some_iff.1 h
      exact ⟨x, hx⟩
  · exact ⟨_, rfl⟩

theorem not_infix_iff (dir : ProjectDir) {name : Bytes} (h : slash ∉ name) (file : Bytes) :
    ¬ betweenSlashes name <:+: dir.base ++ file ↔
      ¬ betweenSlashes name <:+: dir.base ∧ ¬ Below name file := by
  obtain ⟨x, hx⟩ := base_eq dir
  rw [hx, List.append_assoc, List.singleton_append, infix_append_iff h, infix_below_iff h, not_or]

theorem kept_iff (dir : ProjectDir) (file : Bytes) :
    (!findsAny testFragments (dir.base ++ file)) = true ↔ dir.Plain ∧ Outside file := by
  have hnames : slash ∉ bytes "build" ∧ slash ∉ bytes "node_modules" ∧ slash ∉ bytes ".git" := by
    decide
  have hbuild := not_infix_iff dir hnames.1 file
  have hmodules := not_infix_iff dir hnames.2.1 file
  have hgit := not_infix_iff dir hnames.2.2 file
  have hfound : (!findsAny testFragments (dir.base ++ file)) = true ↔
      ¬ bytes "/build/" <:+: dir.base ++ file ∧ ¬ bytes "/node_modules/" <:+: dir.base ++ file ∧
        ¬ bytes "/.git/" <:+: dir.base ++ file := by
    rw [Bool.not_eq_true', ← Bool.not_eq_true]
    simp only [findsAny, testFragments, List.any_cons, List.any_nil, Bool.or_false, Bool.or_eq_true,
      isSome_find, not_or]
  rw [hfound, ProjectDir.Plain, Outside]
  constructor
  · rintro ⟨h₁, h₂, h₃⟩
    have h₁ := hbuild.1 h₁
    have h₂ := hmodules.1 h₂
    have h₃ := hgit.1 h₃
    exact ⟨⟨h₁.1, h₂.1, h₃.1⟩, h₁.2, h₂.2, h₃.2⟩
  · rintro ⟨⟨hb, hm, hg⟩, ob, om, og⟩
    exact ⟨hbuild.2 ⟨hb, ob⟩, hmodules.2 ⟨hm, om⟩, hgit.2 ⟨hg, og⟩⟩

/-! ## Patterns -/

/-- What stands before and behind the star is at both ends of the name, apart from each other. -/
def Glob (before after filename : Bytes) : Prop := ∃ middle, filename = before ++ middle ++ after

/-- A file that is to be found. -/
def SomeFile (dir : ProjectDir) (before after : Bytes) : Prop :=
  ∃ file ∈ dir.files, Outside file ∧ Glob before after (fileName file)

section

variable {before after filename : Bytes}

theorem getLast?_ne_star (lead : Bytes) (hafter : (42 : UInt8) ∉ after) (hne : after ≠ []) :
    (lead ++ after).getLast? ≠ some 42 := by
  rcases List.eq_nil_or_concat' after with rfl | ⟨front, c, rfl⟩
  · exact absurd rfl hne
  · rw [← List.append_assoc, List.getLast?_concat]
    rintro heq
    cases heq
    exact hafter (by simp)

theorem head?_ne_star (rest : Bytes) (hbefore : (42 : UInt8) ∉ before) (hne : before ≠ []) :
    (before ++ rest).head? ≠ some 42 := by
  obtain ⟨c, cs, rfl⟩ := List.exists_cons_of_ne_nil hne
  rintro heq
  cases heq
  exact hbefore List.mem_cons_self

theorem matchesPattern_front (hafter : (42 : UInt8) ∉ after) (hne : after ≠ []) :
    matchesPattern (42 :: after) filename = true ↔ Glob [] after filename := by
  have hlast := getLast?_ne_star [42] hafter hne
  rw [matchesPattern, if_pos ⟨rfl, hlast⟩, List.drop_one, List.tail_cons, Bool.and_eq_true,
    decide_eq_true_eq, decide_eq_true_eq]
  constructor
  · rintro ⟨-, hdrop⟩
    obtain ⟨middle, hmiddle⟩ := List.suffix_iff_eq_drop.2 hdrop.symm
    exact ⟨middle, hmiddle.symm⟩
  · rintro ⟨middle, rfl⟩
    simp

theorem matchesPattern_back (hbefore : (42 : UInt8) ∉ before) (hne : before ≠ []) :
    matchesPattern (before ++ [42]) filename = true ↔ Glob before [] filename := by
  have hhead := head?_ne_star [42] hbefore hne
  rw [matchesPattern, if_neg fun h => hhead h.1, if_pos ⟨hhead, List.getLast?_concat⟩,
    decide_eq_true_eq, List.length_append, List.length_singleton, Nat.add_sub_cancel,
    List.take_left]
  constructor
  · intro htake
    obtain ⟨middle, hmiddle⟩ := List.prefix_iff_eq_take.2 htake.symm
    exact ⟨middle, by rw [List.append_nil, hmiddle]⟩
  · rintro ⟨middle, rfl⟩
    rw [List.append_nil, List.take_left]

/-- The star is at one end. -/
def AtEnd (before after : Bytes) : Prop := before = [] ∧ after ≠ [] ∨ before ≠ [] ∧ after = []

theorem matchesPattern_of_atEnd (hbefore : (42 : UInt8) ∉ before) (hafter : (42 : UInt8) ∉ after)
    (h : AtEnd before after) :
    matchesPattern (before ++ 42 :: after) filename = true ↔ Glob before after filename := by
  rcases h with ⟨rfl, hne⟩ | ⟨hne, rfl⟩
  · exact matchesPattern_front hafter hne
  · exact matchesPattern_back hbefore hne

theorem matchesPattern_of_not_atEnd (hbefore : (42 : UInt8) ∉ before)
    (hafter : (42 : UInt8) ∉ after) (h : ¬ AtEnd before after) :
    matchesPattern (before ++ 42 :: after) filename = true ↔
      filename = before ++ 42 :: after := by
  have hneither : ¬ ((before ++ 42 :: after).head? = some 42 ∧
      (before ++ 42 :: after).getLast? ≠ some 42) ∧
      ¬ ((before ++ 42 :: after).head? ≠ some 42 ∧
        (before ++ 42 :: after).getLast? = some 42) := by
    by_cases hb : before = []
    · have ha : after = [] := by
        by_contra ha
        exact h (.inl ⟨hb, ha⟩)
      rw [hb, ha]
      decide
    · have ha : after ≠ [] := fun ha => h (.inr ⟨hb, ha⟩)
      have hhead := head?_ne_star (42 :: after) hbefore hb
      have hlast := getLast?_ne_star (before ++ [42]) hafter ha
      rw [List.append_assoc, List.singleton_append] at hlast
      exact ⟨fun h => hhead h.1, fun h => hlast h.2⟩
  rw [matchesPattern, if_neg hneither.1, if_neg hneither.2, decide_eq_true_eq]

end

/-! ## The search -/

/-- A file that is called like the pattern. -/
def SameName (dir : ProjectDir) (before after : Bytes) : Prop :=
  ∃ file ∈ dir.files, Outside file ∧ fileName file = before ++ 42 :: after

section

variable {dir : ProjectDir} {before after : Bytes}

theorem hasFilesMatching_iff {pattern : Bytes} : hasFilesMatching dir pattern = true ↔
    dir.Plain ∧ ∃ file ∈ dir.files, Outside file ∧
      matchesPattern pattern (fileName file) = true := by
  rw [hasFilesMatching, List.any_eq_true]
  simp only [Bool.and_eq_true, kept_iff]
  constructor
  · rintro ⟨file, hfile, ⟨hplain, houtside⟩, hmatch⟩
    exact ⟨hplain, file, hfile, houtside, hmatch⟩
  · rintro ⟨hplain, file, hfile, houtside, hmatch⟩
    exact ⟨file, hfile, ⟨hplain, houtside⟩, hmatch⟩

theorem someFile_of_sameName (h : SameName dir before after) : SomeFile dir before after := by
  obtain ⟨file, hfile, houtside, hname⟩ := h
  exact ⟨file, hfile, houtside, [42], by rw [hname]; simp⟩

theorem hasFilesMatching_star_iff (hbefore : (42 : UInt8) ∉ before)
    (hafter : (42 : UInt8) ∉ after) :
    hasFilesMatching dir (before ++ 42 :: after) = true ↔
      dir.Plain ∧ (AtEnd before after ∧ SomeFile dir before after ∨ SameName dir before after) := by
  rw [hasFilesMatching_iff]
  refine and_congr_right fun _ => ?_
  by_cases hend : AtEnd before after
  · simp only [matchesPattern_of_atEnd hbefore hafter hend]
    constructor
    · exact fun h => .inl ⟨hend, h⟩
    · rintro (⟨-, h⟩ | h)
      · exact h
      · exact someFile_of_sameName h
  · simp only [matchesPattern_of_not_atEnd hbefore hafter hend]
    exact ⟨.inr, fun h => h.resolve_left fun h => hend h.1⟩

/-- If a file is to be found, the path of the project is plain and the pattern has its star at
an end, or else is the name of a file. -/
def Recognised (dir : ProjectDir) (before after : Bytes) : Prop :=
  SomeFile dir before after → dir.Plain ∧ (AtEnd before after ∨ SameName dir before after)

theorem search_iff (hbefore : (42 : UInt8) ∉ before) (hafter : (42 : UInt8) ∉ after) :
    (hasFilesMatching dir (before ++ 42 :: after) = true ↔ SomeFile dir before after) ↔
      Recognised dir before after := by
  rw [hasFilesMatching_star_iff hbefore hafter]
  constructor
  · intro h hsome
    obtain ⟨hplain, hfound⟩ := h.2 hsome
    exact ⟨hplain, hfound.imp_left And.left⟩
  · intro h
    constructor
    · rintro ⟨-, ⟨-, hsome⟩ | hname⟩
      · exact hsome
      · exact someFile_of_sameName hname
    · intro hsome
      obtain ⟨hplain, hfound⟩ := h hsome
      exact ⟨hplain, hfound.imp_left fun hend => ⟨hend, hsome⟩⟩

end

/-! ## Projects in Python -/

/-- A project in Python has tests if one of its files is called like a test. -/
def PythonTested (dir : ProjectDir) : Prop :=
  (detect dir).language = bytes "python" →
    SomeFile dir (bytes "test_") (bytes ".py") ∨ SomeFile dir [] (bytes "_test.py") →
      (detect dir).hasTests = true

section

variable (dir : ProjectDir) (info : DetectedProject)

theorem language_withTests (framework : String) :
    (info.withTests framework).language = info.language := rfl

theorem language_detectCTests : (detectCTests dir info).language = info.language := by
  simp only [detectCTests, apply_ite DetectedProject.language, language_withTests, ite_self]

theorem language_detectPythonTests : (detectPythonTests dir info).language = info.language := by
  simp only [detectPythonTests, apply_ite DetectedProject.language, language_withTests, ite_self]

theorem language_detectJavascriptTests :
    (detectJavascriptTests dir info).language = info.language := by
  simp only [detectJavascriptTests, apply_ite DetectedProject.language, language_withTests,
    ite_self]

/-- Looking for tests does not change the language. -/
theorem language_detectTestFramework :
    (detectTestFramework dir info).language = info.language := by
  simp only [detectTestFramework, apply_ite DetectedProject.language, language_withTests,
    language_detectCTests, language_detectPythonTests, language_detectJavascriptTests, ite_self]

theorem language_detect : (detect dir).language = detectLanguage dir :=
  language_detectTestFramework dir _

/-- For a project in Python only the branch for Python is taken. -/
theorem hasTests_of_python (h : info.language = bytes "python") (hno : info.hasTests = false) :
    (detectTestFramework dir info).hasTests =
      (dir.has (bytes "pytest.ini") || dir.has (bytes "pyproject.toml") ||
        (hasFilesMatching dir (bytes "test_*.py") || hasFilesMatching dir (bytes "*_test.py"))) := by
  have hother : ¬ (bytes "python" = bytes "cpp" ∨ bytes "python" = bytes "c") ∧
      bytes "python" ≠ bytes "rust" ∧ bytes "python" ≠ bytes "javascript" ∧
      bytes "python" ≠ bytes "go" := by decide
  have hbranch : detectTestFramework dir info = detectPythonTests dir
      { info with testDirectory := (testDirectory dir).getD info.testDirectory } := by
    simp only [detectTestFramework, language_detectPythonTests, h, if_neg hother.1, if_true,
      if_neg hother.2.2.1, if_neg fun hrust => hother.2.1 (And.left hrust),
      if_neg fun hgo => hother.2.2.2 (And.left hgo)]
  rw [hbranch, detectPythonTests]
  cases dir.has (bytes "pytest.ini") || dir.has (bytes "pyproject.toml") with
  | true => rfl
  | false =>
      cases hasFilesMatching dir (bytes "test_*.py") || hasFilesMatching dir (bytes "*_test.py") with
      | true => rfl
      | false => exact hno

end

theorem snd_of_other {p : Prop} [Decidable p] {n : Nat} {other language : Bytes}
    {most : Nat × Bytes} (h : (if p then (n, other) else most).2 = language)
    (hne : other ≠ language) : most.2 = language := by
  split at h
  · exact absurd h hne
  · exact h

theorem pos_of_chosen {n : Nat} {language : Bytes} {most : Nat × Bytes}
    (h : (if most.1 < n then (n, language) else most).2 = language) (hne : most.2 ≠ language) :
    0 < n := by
  split at h
  · next hmore => exact Nat.zero_lt_of_lt hmore
  · exact absurd h hne

theorem extCount_pos_of_python {dir : ProjectDir} (h : detectLanguage dir = bytes "python") :
    0 < extCount dir [".py"] := by
  have h := snd_of_other h (by decide)
  have h := snd_of_other h (by decide)
  have h := snd_of_other h (by decide)
  refine pos_of_chosen h fun h => ?_
  have h := snd_of_other h (by decide)
  have h := snd_of_other h (by decide)
  exact absurd h (by decide)

/-- A project is not in Python unless its files are looked at. -/
theorem plain_of_python {dir : ProjectDir} (h : detectLanguage dir = bytes "python") :
    dir.Plain := by
  obtain ⟨file, hfile⟩ := List.exists_mem_of_length_pos (extCount_pos_of_python h)
  have hkept := (Bool.and_eq_true_iff.1 (List.mem_filter.1 hfile).2).1
  have htests : (!findsAny testFragments (dir.base ++ file)) = true := by
    rw [Bool.not_eq_true', findsAny, List.any_eq_false] at hkept ⊢
    intro fragment hfragment
    exact hkept fragment (List.mem_append_left _ hfragment)
  exact ((kept_iff dir file).1 htests).1

theorem hasTests_detect {dir : ProjectDir} (h : detectLanguage dir = bytes "python") :
    (detect dir).hasTests =
      (dir.has (bytes "pytest.ini") || dir.has (bytes "pyproject.toml") ||
        (hasFilesMatching dir (bytes "test_*.py") || hasFilesMatching dir (bytes "*_test.py"))) := by
  rw [detect]
  exact hasTests_of_python dir _ h rfl

/-- What a Python project needs for its tests to be noticed. -/
def PythonRecognised (dir : ProjectDir) : Prop :=
  detectLanguage dir = bytes "python" → SomeFile dir (bytes "test_") (bytes ".py") →
    dir.has (bytes "pytest.ini") = true ∨ dir.has (bytes "pyproject.toml") = true ∨
      SomeFile dir [] (bytes "_test.py") ∨ SameName dir (bytes "test_") (bytes ".py")

theorem pythonTested_iff (dir : ProjectDir) : PythonTested dir ↔ PythonRecognised dir := by
  rw [PythonTested, PythonRecognised, language_detect]
  refine forall_congr' fun hpython => ?_
  have hplain := plain_of_python hpython
  have hmiddle : hasFilesMatching dir (bytes "test_*.py") = true ↔
      SameName dir (bytes "test_") (bytes ".py") := by
    have hpattern : bytes "test_*.py" = bytes "test_" ++ 42 :: bytes ".py" := rfl
    rw [hpattern, hasFilesMatching_star_iff (by decide) (by decide), AtEnd]
    simp [hplain, bytes]
  have hfront : hasFilesMatching dir (bytes "*_test.py") = true ↔
      SomeFile dir [] (bytes "_test.py") := by
    have hpattern : bytes "*_test.py" = [] ++ 42 :: bytes "_test.py" := rfl
    have hend : AtEnd [] (bytes "_test.py") := .inl ⟨rfl, by decide⟩
    rw [hpattern, hasFilesMatching_star_iff (by decide) (by decide)]
    exact ⟨fun h => h.2.elim And.right someFile_of_sameName, fun h => ⟨hplain, .inl ⟨hend, h⟩⟩⟩
  have htests : (detect dir).hasTests = true ↔
      dir.has (bytes "pytest.ini") = true ∨ dir.has (bytes "pyproject.toml") = true ∨
        SomeFile dir [] (bytes "_test.py") ∨ SameName dir (bytes "test_") (bytes ".py") := by
    rw [hasTests_detect hpython, Bool.or_eq_true, Bool.or_eq_true, Bool.or_eq_true, hmiddle, hfront,
      or_assoc, or_comm (a := SameName dir (bytes "test_") (bytes ".py"))]
  rw [htests]
  -- A file that ends in `_test.py` is found anyway.
  constructor
  · exact fun h hsome => h (.inl hsome)
  · exact fun h hsome => hsome.elim h fun hfront => .inr (.inr (.inl hfront))

/-- A file is found where one is to be found exactly if the pattern is understood and the path of
the project is plain, and likewise for the tests of a project in Python. -/
theorem findsTests_iff (dir : ProjectDir) {before after : Bytes}
    (hbefore : (42 : UInt8) ∉ before) (hafter : (42 : UInt8) ∉ after) :
    ((hasFilesMatching dir (before ++ 42 :: after) = true ↔ SomeFile dir before after) ↔
        Recognised dir before after) ∧
      (PythonTested dir ↔ PythonRecognised dir) :=
  ⟨search_iff hbefore hafter, pythonTested_iff dir⟩

/-! ## A module and its test -/

/-- A project in Python with one test. -/
def pythonDir : ProjectDir where
  path := bytes "/home/dev/tool"
  named := by decide
  tree :=
    { nodes := (OrdMap.empty.insert (bytes "core.py") (.file [])).insert (bytes "test_core.py")
        (.file [])
      closed := by decide +kernel
      nulFree := by decide +kernel }

theorem findsTests_iff_python : (42 : UInt8) ∉ bytes "test_" ∧ (42 : UInt8) ∉ bytes ".py" ∧
    ((hasFilesMatching pythonDir (bytes "test_" ++ 42 :: bytes ".py") = true ↔
          SomeFile pythonDir (bytes "test_") (bytes ".py")) ↔
        Recognised pythonDir (bytes "test_") (bytes ".py")) ∧
      (PythonTested pythonDir ↔ PythonRecognised pythonDir) :=
  ⟨by decide, by decide, findsTests_iff pythonDir (by decide) (by decide)⟩

/-- The test is there and is not found. -/
theorem python_not_tested :
    ¬ (hasFilesMatching pythonDir (bytes "test_*.py") = true ↔
        SomeFile pythonDir (bytes "test_") (bytes ".py")) ∧
      ¬ PythonTested pythonDir := by
  have hsome : SomeFile pythonDir (bytes "test_") (bytes ".py") := by
    refine ⟨bytes "test_core.py", by decide +kernel, ?_, bytes "core", by decide +kernel⟩
    have hnone : ancestors (bytes "test_core.py") = [] := by decide +kernel
    simp [Outside, Below, hnone]
  refine ⟨fun h => ?_, fun h => ?_⟩
  · exact absurd (h.2 hsome) (by decide +kernel)
  · exact absurd (h (by decide +kernel) (.inl hsome)) (by decide +kernel)

end Nazg.Brain

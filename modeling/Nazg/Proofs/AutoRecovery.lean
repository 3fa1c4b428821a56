import Nazg.Engine.Runtime

/-!
# The automatic recovery

The recovery should take a database away only when SQLite has reported the file itself.
It goes by two words of a text, and the text of any error may hold them: the recovery is
right exactly if the errors of sound statements do not, or the file cannot be removed.
What it begins again with is empty, whatever the old log holds.
-/

namespace Nazg.Engine

open Lib Nexus

/-! ## The words -/

/-- The words the code looks for. -/
def corruptionWords : List Bytes := [bytes "corrupt", bytes "malformed"]

/-- The third thing it looks for holds the second. -/
theorem malformed_within : bytes "malformed" <:+: bytes "database disk image is malformed" :=
  ⟨bytes "database disk image is ", [], by decide +kernel⟩

theorem looksCorrupted_iff {error : Bytes} :
    looksCorrupted error ↔ ∃ word ∈ corruptionWords, word <:+: error := by
  rw [looksCorrupted, Bool.or_eq_true, Bool.or_eq_true, isSome_find, isSome_find, isSome_find,
    corruptionWords, List.exists_mem_cons_iff, List.exists_mem_cons_iff]
  constructor
  · rintro ((h | h) | h)
    · exact .inl h
    · exact .inr (.inl h)
    · exact .inr (.inl (malformed_within.trans h))
  · rintro (h | h | ⟨_, hmem, -⟩)
    · exact .inl (.inl h)
    · exact .inl (.inr h)
    · cases hmem

/-- A word that cannot begin in the text before it is in the rest. -/
theorem infix_append_iff {c : UInt8} {word lead rest : Bytes} (h : c ∉ lead) :
    c :: word <:+: lead ++ rest ↔ c :: word <:+: rest := by
  rw [← isSome_find, ← isSome_find, find_append (NoMatch.of_head_notMem rest h),
    Option.isSome_map]

/-- The words are found in the message itself, not in what is put before it. -/
theorem looksCorrupted_sql {e : SqlError} : looksCorrupted (Failure.sql e).lastInitError ↔
    ∃ word ∈ corruptionWords, word <:+: lastError e.errMsg := by
  have hcorrupt : bytes "corrupt" = 99 :: bytes "orrupt" := rfl
  have hmalformed : bytes "malformed" = 109 :: bytes "alformed" := rfl
  have hlead : (99 : UInt8) ∉ bytes "Migration failed: " ∧
      (109 : UInt8) ∉ bytes "Migration failed: " := by
    decide +kernel
  rw [looksCorrupted_iff, Failure.lastInitError, corruptionWords, List.exists_mem_cons_iff,
    List.exists_mem_cons_iff, List.exists_mem_cons_iff, List.exists_mem_cons_iff, hcorrupt,
    hmalformed, infix_append_iff hlead.1, infix_append_iff hlead.2]
  simp only [List.not_mem_nil, false_and, exists_false]

theorem not_looksCorrupted_notConnected :
    looksCorrupted Failure.notConnected.lastInitError = false := by
  decide +kernel

/-! ## The recovery -/

section

variable {σ Page : Type} [Inhabited Page] (engine : Nexus.Engine σ Page) (host : Host σ)

/-- The first `initialize`, if the database can be opened. -/
def firstInitialize (f : DbFiles Page) : Option (InitResult × Store Page) :=
  (Store.create host.opens f).map fun store => store.initializeStore engine host.first

/-- What made it fail, and what it left. -/
def failsWith (f : DbFiles Page) (failure : Failure) (left : Store Page) : Prop :=
  firstInitialize engine host f = some (.failed failure, left)

/-- The database is removed only when SQLite has reported the file; one on which a
statement failed is as the failure left it; and what is begun with after a removal is
empty. -/
def Sound (f : DbFiles Page) : Prop :=
  ((initNexus engine host f).removed = true →
      ∃ errMsg left, failsWith engine host f (.corrupt errMsg) left) ∧
  (∀ e left, failsWith engine host f (.sql e) left →
      (initNexus engine host f).removed = false ∧ (initNexus engine host f).files.main.isSome ∧
        (initNexus engine host f).files.pages = left.files.pages) ∧
  ∀ pages, (initNexus engine host f).recreatedOn = some pages → pages = []

variable {engine host}

theorem recreate_removed (f : DbFiles Page) : (recreate engine host f).removed = true := by
  rw [recreate]
  split
  · rfl
  · split
    · rfl
    · rfl

/-- A new store begins on an empty database. -/
theorem recreate_recreatedOn {f : DbFiles Page} {pages : List Page}
    (h : (recreate engine host f).recreatedOn = some pages) : pages = [] := by
  rw [recreate] at h
  split at h
  · cases h
  · next store hcreate =>
      have hpages : store.files.pages = [] := by
        rw [Store.create] at hcreate
        split at hcreate
        · cases hcreate
          exact DbFiles.pages_attach_unlink f
        · cases hcreate
      split at h
      · cases h
        exact hpages
      · cases h
        exact hpages

/-- What a start does, by what the first `initialize` does. -/
theorem initNexus_eq (f : DbFiles Page) : initNexus engine host f =
    match firstInitialize engine host f with
    | none => ⟨f, false, false, none⟩
    | some (.failed failure, left) =>
        if looksCorrupted failure.lastInitError ∧ host.removeThrows = false then
          recreate engine host (left.close host.last)
        else ⟨left.close host.last, false, false, none⟩
    | some (_, store) => ⟨store.files, true, false, none⟩ := by
  rw [initNexus, firstInitialize]
  cases Store.create host.opens f with
  | none => rfl
  | some store =>
      rw [Option.map_some]
      dsimp only
      generalize store.initializeStore engine host.first = run
      obtain ⟨result, left⟩ := run
      cases result with
      | ok => rfl
      | threw => rfl
      | failed failure =>
          dsimp only
          cases looksCorrupted failure.lastInitError <;> cases host.removeThrows <;> rfl

theorem main_initializeStore {a : Attempt σ} {s : Store Page} (h : s.files.main.isSome) :
    (s.initializeStore engine a).2.files.main.isSome := by
  rw [Store.initializeStore]
  split
  · exact h
  · split
    · exact h
    · split
      · exact h
      · exact h
    · dsimp only
      split
      · exact h
      · split
        · exact engine.main_save _ _
        · exact engine.main_save _ _

theorem main_of_failsWith {f : DbFiles Page} {failure : Failure} {left : Store Page}
    (h : failsWith engine host f failure left) : (left.close host.last).main.isSome := by
  obtain ⟨store, hcreate, hleft⟩ := Option.map_eq_some_iff.1 h
  have hmain : store.files.main.isSome := by
    rw [Store.create] at hcreate
    split at hcreate
    · cases hcreate
      exact f.main_attach
    · cases hcreate
  have hkept : (store.initializeStore engine host.first).2.files.main.isSome :=
    main_initializeStore hmain
  rw [hleft] at hkept
  rw [Store.close]
  split
  · rfl
  · exact hkept

end

/-! ## A message about data -/

instance : Inhabited (Contents (List Bytes)) := ⟨⟨none, []⟩⟩

/-- An engine whose databases have one page, with the values of one column beside the
versions. -/
def onePageEngine : Nexus.Engine (List Bytes) (Contents (List Bytes)) where
  blank := []
  decode
    | [] => some ⟨none, []⟩
    | [x] => some x
    | _ => none
  decode_nil := rfl
  save x _ := ⟨some [x], []⟩
  decode_save _ _ := rfl
  main_save _ _ := rfl

/-- A migration that reads a JSON column. -/
def tagsFile : ScriptFile (List Bytes) := ⟨13, 0, [id], 0⟩

theorem load_tagsFile :
    loadMigrations [⟨bytes "013_tags.sql", true, some tagsFile.migration.sql⟩] =
      some [tagsFile.migration] := by
  have hread : ([⟨bytes "013_tags.sql", true, some tagsFile.migration.sql⟩] :
      List (DirEntry (List Bytes))).mapM DirEntry.read = some [some tagsFile.migration] := rfl
  rw [loadMigrations, hread]
  simp [List.reduceOption]

/-- A sound database at version 12 with a row that is no JSON. -/
def soundDb : DbFiles (Contents (List Bytes)) := ⟨some [⟨some [12], [bytes "tag: x"]⟩], []⟩

def malformedJson : SqlError := ⟨.statement, some (.ofCStr (bytes "malformed JSON"))⟩

/-- The statement fails on the row; nothing else goes wrong. -/
def jsonHost : Host (List Bytes) where
  opens := true
  first :=
    { entries := [⟨bytes "013_tags.sql", true, some tagsFile.migration.sql⟩]
      errors := fun _ i => if i = 1 then some malformedJson else none
      damage := none }
  last := true
  removeThrows := false
  reopens := true
  second :=
    { entries := [⟨bytes "013_tags.sql", true, some tagsFile.migration.sql⟩]
      errors := fun _ _ => none
      damage := none }

end Nazg.Engine

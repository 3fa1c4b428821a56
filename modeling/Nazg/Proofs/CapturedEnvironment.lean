import Nazg.Proofs.SnapshotDiffs
import Nazg.Workspace.SnapshotDiff

/-!
# What is read of a captured environment

Values are written as they are and read from quote to quote, so a value with a quote in it is
cut there, and the rest of it is taken for names and values of its own.

`environmentKept_iff` says when the variables are read as they are set, and when a change of
one is reported.
-/

namespace Nazg.Workspace

open Lib

/-! ## The reader -/

theorem length_of_cut {c : UInt8} {s a b : Bytes} (h : cut c s = some (a, b)) :
    b.length < s.length := by
  rw [(eq_of_cut h).1, List.length_append, List.length_cons]
  omega

/-- The value of an entry has no quote in it, and the entry takes some of the text. -/
theorem of_nextEntry {s key value rest : Bytes} (h : nextEntry s = some (key, value, rest)) :
    (34 : UInt8) ∉ value ∧ rest.length < s.length := by
  simp only [nextEntry, Option.bind_eq_bind, Option.bind_eq_some_iff, Prod.exists,
    Option.some.injEq, Prod.mk.injEq] at h
  obtain ⟨a₁, s₁, h₁, a₂, s₂, h₂, a₃, s₃, h₃, a₄, s₄, h₄, a₅, s₅, h₅, -, rfl, rfl⟩ := h
  refine ⟨(eq_of_cut h₅).2, ?_⟩
  have hlengths := And.intro (length_of_cut h₁) (And.intro (length_of_cut h₂)
    (And.intro (length_of_cut h₃) (And.intro (length_of_cut h₄) (length_of_cut h₅))))
  omega

theorem parseEntries_succ (fuel : Nat) (s : Bytes) (m : OrdMap Bytes Bytes)
    (hfuel : s.length ≤ fuel) : parseEntries (fuel + 1) s m = parseEntries fuel s m := by
  induction fuel generalizing s m with
  | zero =>
      rw [List.length_eq_zero_iff.1 (Nat.le_zero.1 hfuel)]
      rfl
  | succ fuel ih =>
      rw [parseEntries, parseEntries]
      cases h : nextEntry s with
      | none => rfl
      | some entry =>
          obtain ⟨key, value, rest⟩ := entry
          have hlt := (of_nextEntry h).2
          exact ih rest _ (by omega)

/-- The turns are enough: further ones change nothing. -/
theorem parseSimpleJsonMap_eq (json : Bytes) (n : Nat) :
    parseSimpleJsonMap json = parseEntries (json.length + n) json .empty := by
  induction n with
  | zero => rfl
  | succ n ih => rw [ih, ← Nat.add_assoc, parseEntries_succ _ _ _ (Nat.le_add_right _ _)]

theorem quote_notMem_parseEntries (fuel : Nat) (s : Bytes) (m : OrdMap Bytes Bytes)
    (hm : ∀ key value, m.find? key = some value → (34 : UInt8) ∉ value) :
    ∀ key value, (parseEntries fuel s m).find? key = some value → (34 : UInt8) ∉ value := by
  induction fuel generalizing s m with
  | zero => exact hm
  | succ fuel ih =>
      rw [parseEntries]
      split
      · next key value rest hentry =>
          refine ih rest _ fun key' value' hfind => ?_
          rw [OrdMap.find?_insert] at hfind
          split at hfind
          · cases hfind
            exact (of_nextEntry hentry).1
          · exact hm key' value' hfind
      · exact hm

/-! ## The writer -/

theorem nextEntry_written {lead key value : Bytes} (hlead : (34 : UInt8) ∉ lead)
    (hkey : (34 : UInt8) ∉ key) (hvalue : (34 : UInt8) ∉ value) (rest : Bytes) :
    nextEntry (lead ++ (entryText (key, value) ++ rest)) = some (key, value, rest) := by
  have htext : lead ++ (entryText (key, value) ++ rest) =
      lead ++ 34 :: (key ++ 34 :: ([] ++ 58 :: ([] ++ 34 :: (value ++ 34 :: rest)))) := by
    simp only [entryText, List.append_assoc]
    rfl
  have hnil : ∀ (c : UInt8) (b : Bytes), cut c ([] ++ c :: b) = some ([], b) :=
    fun c b => cut_append List.not_mem_nil b
  rw [htext]
  simp only [nextEntry, Option.bind_eq_bind, cut_append hlead, cut_append hkey, hnil,
    cut_append hvalue, Option.bind_some]

theorem nextEntry_end {s : Bytes} (h : (34 : UInt8) ∉ s) : nextEntry s = none := by
  have hcut : cut 34 s = none := by
    cases hcut : cut 34 s with
    | none => rfl
    | some found =>
        refine absurd ?_ h
        rw [(eq_of_cut hcut).1]
        exact List.mem_append_right _ List.mem_cons_self
  rw [nextEntry, hcut]
  rfl

/-- Names and values without quotes are read in their order. -/
theorem parseEntries_written {es : List (Bytes × Bytes)}
    (h : ∀ e ∈ es, (34 : UInt8) ∉ e.1 ∧ (34 : UInt8) ∉ e.2) {lead : Bytes}
    (hlead : (34 : UInt8) ∉ lead) {fuel : Nat} (hfuel : es.length ≤ fuel)
    (m : OrdMap Bytes Bytes) :
    parseEntries fuel (lead ++ ((bytes ",").intercalate (es.map entryText) ++ bytes "\x7d")) m =
      es.foldl (fun m e => m.insert e.1 e.2) m := by
  induction es generalizing lead fuel m with
  | nil =>
      cases fuel with
      | zero => rfl
      | succ fuel =>
          have hend : (34 : UInt8) ∉ lead ++ bytes "\x7d" := by
            rw [List.mem_append, not_or]
            exact ⟨hlead, by decide⟩
          rw [List.map_nil, List.intercalate_nil, List.nil_append, parseEntries,
            nextEntry_end hend]
          rfl
  | cons e es ih =>
      obtain ⟨he, hes⟩ := List.forall_mem_cons.1 h
      obtain ⟨fuel, rfl⟩ : ∃ n, fuel = n + 1 := ⟨fuel - 1, by rw [List.length_cons] at hfuel; omega⟩
      -- Behind the entry stands a comma, unless it is the last.
      obtain ⟨lead', hlead', htail⟩ : ∃ lead' : Bytes, (34 : UInt8) ∉ lead' ∧
          (bytes ",").intercalate ((e :: es).map entryText) ++ bytes "\x7d" =
            entryText e ++ (lead' ++ ((bytes ",").intercalate (es.map entryText) ++
              bytes "\x7d")) := by
        cases es with
        | nil => exact ⟨[], List.not_mem_nil, by simp⟩
        | cons x es =>
            refine ⟨bytes ",", by decide, ?_⟩
            rw [List.map_cons, List.map_cons, List.intercalate_cons_cons]
            simp only [List.append_assoc]
      rw [htail, parseEntries, nextEntry_written hlead he.1 he.2]
      exact ih hes hlead' (by rw [List.length_cons] at hfuel; omega) _

/-! ## Variables -/

/-- What a snapshot is to have at a name. -/
def relevantValue (env : Environment) (key : Bytes) : Option Bytes :=
  if key ∈ relevantVars then (env key).map Text.bytes else none

/-- No variable that matters has a quote in its value. -/
def QuoteFree (env : Environment) : Prop :=
  ∀ var ∈ relevantVars, ∀ value, env var = some value → (34 : UInt8) ∉ value.bytes

theorem quote_notMem_relevantVars : ∀ var ∈ relevantVars, (34 : UInt8) ∉ var := by
  decide +kernel

theorem nodup_relevantVars : relevantVars.Nodup := by
  decide +kernel

theorem mem_setVars {env : Environment} {e : Bytes × Bytes} :
    e ∈ setVars env ↔ e.1 ∈ relevantVars ∧ (env e.1).map Text.bytes = some e.2 := by
  rw [setVars, List.mem_filterMap]
  constructor
  · rintro ⟨var, hvar, h⟩
    obtain ⟨value, hvalue, rfl⟩ := Option.map_eq_some_iff.1 h
    exact ⟨hvar, by rw [hvalue]; rfl⟩
  · rintro ⟨hvar, h⟩
    obtain ⟨value, hvalue, hbytes⟩ := Option.map_eq_some_iff.1 h
    refine ⟨e.1, hvar, ?_⟩
    rw [hvalue, Option.map_some, hbytes]

theorem names_sublist (env : Environment) (vars : List Bytes) :
    ((vars.filterMap fun var => (env var).map fun value => (var, value.bytes)).map
      Prod.fst).Sublist vars := by
  induction vars with
  | nil => exact List.Sublist.slnil
  | cons var vars ih =>
      rw [List.filterMap_cons]
      cases env var with
      | none => exact ih.cons var
      | some value => exact ih.cons_cons var

theorem lookup_setVars (env : Environment) (vars : List Bytes) (key : Bytes) :
    OrdMap.lookup key
        (vars.filterMap fun var => (env var).map fun value => (var, value.bytes)) =
      if key ∈ vars then (env key).map Text.bytes else none := by
  induction vars with
  | nil => rfl
  | cons var vars ih =>
      rw [List.filterMap_cons]
      by_cases hkey : key = var
      · subst hkey
        rw [if_pos List.mem_cons_self]
        cases hset : env key with
        | none =>
            rw [hset] at ih
            simpa using ih
        | some value => exact if_pos rfl
      · have hmem : key ∈ var :: vars ↔ key ∈ vars := List.mem_cons.trans (or_iff_right hkey)
        rw [if_congr hmem rfl rfl, ← ih]
        cases env var with
        | none => rfl
        | some value => exact if_neg hkey

theorem find?_parse_capture {env : Environment} (h : QuoteFree env) (key : Bytes) :
    (parseSimpleJsonMap (captureEnvironment env)).find? key = relevantValue env key := by
  have hentries : ∀ e ∈ setVars env, (34 : UInt8) ∉ e.1 ∧ (34 : UInt8) ∉ e.2 := by
    intro e he
    obtain ⟨hvar, hvalue⟩ := mem_setVars.1 he
    obtain ⟨value, hset, hbytes⟩ := Option.map_eq_some_iff.1 hvalue
    exact ⟨quote_notMem_relevantVars _ hvar, hbytes ▸ h _ hvar value hset⟩
  have hnames : ((setVars env).map Prod.fst).Nodup :=
    (names_sublist env relevantVars).nodup nodup_relevantVars
  rw [parseSimpleJsonMap_eq _ (setVars env).length, captureEnvironment, List.append_assoc,
    parseEntries_written hentries (by decide) (Nat.le_add_left _ _),
    OrdMap.find?_foldl_insert hnames, OrdMap.find?_empty, Option.or_none, setVars, lookup_setVars,
    relevantValue]

theorem quoteFree_of_read {env : Environment}
    (h : ∀ key, (parseSimpleJsonMap (captureEnvironment env)).find? key = relevantValue env key) :
    QuoteFree env := by
  intro var hvar value hset
  refine quote_notMem_parseEntries _ _ _ (fun _ _ hnone => by simp at hnone) var value.bytes
    ((h var).trans ?_)
  rw [relevantValue, if_pos hvar, hset]
  rfl

/-! ## From a snapshot to the present -/

theorem notMem_captureEnvironment (env : Environment) : (0 : UInt8) ∉ captureEnvironment env := by
  have hentry : ∀ e ∈ setVars env, (0 : UInt8) ∉ entryText e := by
    intro e he
    obtain ⟨hvar, hvalue⟩ := mem_setVars.1 he
    obtain ⟨value, -, hbytes⟩ := Option.map_eq_some_iff.1 hvalue
    have hname : (0 : UInt8) ∉ e.1 :=
      (by decide +kernel : ∀ var ∈ relevantVars, (0 : UInt8) ∉ var) _ hvar
    have hquotes : (0 : UInt8) ∉ bytes "\"" ∧ (0 : UInt8) ∉ bytes "\":\"" := by decide
    simp only [entryText, List.mem_append, not_or]
    exact ⟨⟨⟨⟨hquotes.1, hname⟩, hquotes.2⟩, hbytes ▸ value.nulFree⟩, hquotes.1⟩
  have hbraces : (0 : UInt8) ∉ bytes "\x7b" ∧ (0 : UInt8) ∉ bytes "\x7d" := by decide
  have hentries : (0 : UInt8) ∉ (bytes ",").intercalate ((setVars env).map entryText) := by
    intro h
    rcases mem_intercalate h with hcomma | ⟨text, htext, hzero⟩
    · exact absurd hcomma (by decide)
    · obtain ⟨e, he, rfl⟩ := List.mem_map.1 htext
      exact hentry e he hzero
  rw [captureEnvironment, List.mem_append, List.mem_append, not_or, not_or]
  exact ⟨⟨hbraces.1, hentries⟩, hbraces.2⟩

/-- What a snapshot that was taken in an environment has of it in the store. -/
def storedEnvironment (env : Environment) : Text := .ofCStr (captureEnvironment env)

theorem storedEnvironment_bytes (env : Environment) :
    (storedEnvironment env).bytes = captureEnvironment env :=
  cstr_eq_self.2 (notMem_captureEnvironment env)

/-- The environment of a snapshot is read as the one it was taken in, and so is the present one,
and a variable is reported if it changed. -/
structure EnvironmentKept (past present : Environment) : Prop where
  ofSnapshot : ∀ key, (parseSimpleJsonMap (storedEnvironment past).bytes).find? key =
    relevantValue past key
  ofPresent : ∀ key, (parseSimpleJsonMap (captureEnvironment present)).find? key =
    relevantValue present key
  reported : ∀ key, key ∈ (diffCurrentEnvironment (storedEnvironment past) present).keys ↔
    relevantValue present key ≠ relevantValue past key

/-- No variable is set to the text that stands for one that is not set, while it is not set in
the other environment. -/
def NotMissing (past present : Environment) : Prop :=
  ∀ var ∈ relevantVars,
    (present var = none → (past var).map Text.bytes ≠ some missing) ∧
      (past var = none → (present var).map Text.bytes ≠ some missing)

theorem unambiguous_iff {past present : Environment} {old new : OrdMap Bytes Bytes}
    (hold : ∀ key, old.find? key = relevantValue present key)
    (hnew : ∀ key, new.find? key = relevantValue past key) :
    Unambiguous old new ↔ NotMissing past present := by
  refine forall_congr' fun key => ?_
  rw [hold, hnew, relevantValue, relevantValue]
  by_cases hkey : key ∈ relevantVars
  · simp only [hkey, if_true, Option.map_eq_none_iff, forall_const]
  · simp only [hkey, if_false, false_implies, iff_true]
    exact ⟨fun _ => Option.some_ne_none _ ∘ Eq.symm, fun _ => Option.some_ne_none _ ∘ Eq.symm⟩

/-- Environments are kept and compared as they are exactly if no value has a quote and none is
the text for a variable that is not set. -/
theorem environmentKept_iff (past present : Environment) :
    EnvironmentKept past present ↔
      QuoteFree past ∧ QuoteFree present ∧ NotMissing past present := by
  constructor
  · rintro ⟨hpast, hpresent, hreported⟩
    rw [storedEnvironment_bytes] at hpast
    refine ⟨quoteFree_of_read hpast, quoteFree_of_read hpresent, ?_⟩
    rw [← unambiguous_iff hpresent hpast, ← keysReported_iff]
    intro key
    rw [hpast, hpresent, ← hreported, diffCurrentEnvironment, storedEnvironment_bytes]
  · rintro ⟨hpast, hpresent, hmissing⟩
    have hpast' := find?_parse_capture hpast
    have hpresent' := find?_parse_capture hpresent
    refine ⟨storedEnvironment_bytes past ▸ hpast', hpresent', fun key => ?_⟩
    rw [← hpast', ← hpresent', diffCurrentEnvironment, storedEnvironment_bytes]
    exact keysReported_iff.2 ((unambiguous_iff hpresent' hpast').2 hmissing) key

/-- An environment with one compiler flag, and one without any. -/
def flagged : Environment := fun var =>
  if var = bytes "CFLAGS" then some (.ofCStr (bytes "-DNAME=\"nazg\"")) else none

def bare : Environment := fun _ => none

/-- The flag is cut off at its quote. -/
theorem flagged_not_environmentKept :
    (parseSimpleJsonMap (captureEnvironment flagged)).find? (bytes "CFLAGS") =
        some (bytes "-DNAME=") ∧
      ¬ EnvironmentKept bare flagged := by
  refine ⟨by decide +kernel, fun h => ?_⟩
  exact absurd (h.ofPresent (bytes "CFLAGS")) (by decide +kernel)

end Nazg.Workspace

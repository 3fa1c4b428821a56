import Nazg.Agent.Images
import Nazg.Proofs.ComposeSections

/-!
# Two readers of compose files

The parser finds the services by their indentation, the agent by two blanks and a colon,
between a line with `services:` in it and one that begins in the first column. So to the agent
the keys of a service are services too, a comment in the first column ends them, and a service
whose line has `services:` in it is none. The two agree exactly if every line that the agent
takes for a service, without being the line of one, stands for one that it does not see.
-/

namespace Nazg.Docker

open Lib
open Agent (discoverServices mentionsServices definedService readLinesOf givenName
  discoverServices_false map_readLinesOf)

/-! ## Which lines are those of the services -/

/-- A line, and the name of the service if it is the line of one. -/
abbrev TaggedLine := Line × Option Bytes

def ServiceText.tagged (indent : Nat) (s : ServiceText) : List TaggedLine :=
  (keyLine indent s.name.written s.trail.text, some s.name.value) ::
    (s.between.map (·.line) ++ s.entries.flatMap (·.lines s.inner)).map fun l => (l, none)

def Section.tagged (indent : Nat) : Section → List TaggedLine
  | services trail between inner texts =>
      (keyLine indent (bytes "services") trail.text, none) ::
        ((between.map (·.line)).map (fun l => (l, none)) ++ texts.flatMap (·.tagged inner))
  | other key after nested below =>
      ((Section.other key after nested below).lines indent).map fun l => (l, none)

def FileText.tagged (doc : FileText) : List TaggedLine :=
  (doc.before.map (·.line)).map (fun l => (l, none)) ++ doc.sections.flatMap (·.tagged doc.indent)

/-- The services that the agent sees: those whose line it reads, with no `services:` in it. -/
def FileText.seen (doc : FileText) : List Bytes :=
  ((readLinesOf Prod.fst doc.tagged).filter fun x => !mentionsServices x.1).filterMap Prod.snd

/-- The names that it is given by other lines. -/
def FileText.strays (doc : FileText) : List Bytes :=
  ((readLinesOf Prod.fst doc.tagged).filter fun x => !x.2.isSome).filterMap fun x => givenName x.1

/-- What other lines give are the services that are not seen, each once. -/
structure FileText.StraysStandIn (doc : FileText) : Prop where
  nodup : doc.strays.Nodup
  unseen : ∀ name, name ∈ doc.strays ↔ name ∈ doc.texts.map (·.name.value) ∧ name ∉ doc.seen

/-- The file in two-space block style. -/
structure FileText.TwoSpaces (doc : FileText) : Prop where
  written : doc.Written
  plain : doc.Plain
  indent : doc.indent = 0
  inner : ∀ sec ∈ doc.sections, ∀ trail between inner texts,
    sec = .services trail between inner texts → inner = 2

/-- The agent's list has no duplicates, and the same names as the parser's map. -/
def ReadersAgree (text : Bytes) : Prop :=
  (discoverServices false (getLines text)).Nodup ∧ ∃ compose, parse text = some compose ∧
    ∀ name, name ∈ discoverServices false (getLines text) ↔ name ∈ compose.services.keys

/-! ## Tagging changes no line -/

theorem ServiceText.map_tagged (indent : Nat) (s : ServiceText) :
    (s.tagged indent).map Prod.fst = s.lines indent := by
  simp [ServiceText.tagged, ServiceText.lines, List.map_map, Function.comp_def]

theorem Section.map_tagged (indent : Nat) (sec : Section) :
    (sec.tagged indent).map Prod.fst = sec.lines indent := by
  cases sec with
  | services trail between inner texts =>
      simp [Section.tagged, Section.lines, List.map_map, Function.comp_def, List.map_flatMap,
        ServiceText.map_tagged]
  | other key after nested below => simp [Section.tagged, List.map_map, Function.comp_def]

theorem FileText.map_tagged (doc : FileText) : doc.tagged.map Prod.fst = doc.lines := by
  simp [FileText.tagged, FileText.lines, List.map_map, Function.comp_def, List.map_flatMap,
    Section.map_tagged]

theorem ServiceText.filterMap_tagged (indent : Nat) (s : ServiceText) :
    (s.tagged indent).filterMap Prod.snd = [s.name.value] := by
  simp [ServiceText.tagged, List.filterMap_map, Function.comp_def]

theorem Section.filterMap_tagged (indent : Nat) (sec : Section) :
    (sec.tagged indent).filterMap Prod.snd = sec.texts.map (·.name.value) := by
  cases sec with
  | services trail between inner texts =>
      simp [Section.tagged, Section.texts, List.filterMap_map, Function.comp_def,
        List.filterMap_flatMap, ServiceText.filterMap_tagged, ← List.map_eq_flatMap]
  | other key after nested below =>
      simp [Section.tagged, Section.texts, List.filterMap_map]

/-- The tags are the declared services. -/
theorem FileText.filterMap_tagged (doc : FileText) :
    doc.tagged.filterMap Prod.snd = doc.texts.map (·.name.value) := by
  simp [FileText.tagged, FileText.texts, List.filterMap_map, Function.comp_def,
    List.filterMap_flatMap, Section.filterMap_tagged, List.map_flatMap]

/-! ## What the line of a service gives -/

theorem KeyText.dropWhile_blank {key : Bytes} (h : KeyText key) :
    key.dropWhile isTabOrSpace = key := by
  obtain ⟨c, s, rfl, hvis, -, -⟩ := h.head
  exact List.dropWhile_cons_of_neg (by rw [hvis]; exact Bool.false_ne_true)

theorem KeyText.rdropWhile_blank {key : Bytes} (h : KeyText key) :
    key.rdropWhile isTabOrSpace = key := by
  have htrim := h.2.1
  rw [trim, h.dropWhile_blank, List.rdropWhile_eq_self_iff] at htrim
  refine List.rdropWhile_eq_self_iff.2 fun hne hblank => htrim hne ?_
  rw [isTabOrSpace] at hblank
  rw [isLineEnd, hblank, Bool.true_or, Bool.true_or]

theorem definedService_keyLine {key : Bytes} (h : KeyText key) (after : Bytes) :
    definedService (keyLine 2 key after) = some key := by
  have hcolon : colon ∉ spaces 2 ++ key := by
    rw [List.mem_append, not_or]
    exact ⟨by decide, h.2.2.1⟩
  have hname : (keyLine 2 key after).takeWhile (· ≠ colon) = spaces 2 ++ key := by
    rw [keyLine, ← List.append_assoc, takeWhile_key hcolon]
  have hservice : ((((keyLine 2 key after).takeWhile (· ≠ colon)).drop 2).dropWhile
      isTabOrSpace).rdropWhile isTabOrSpace = key := by
    have hdrop : (spaces 2 ++ key).drop 2 = key := List.drop_left' rfl
    rw [hname, hdrop, h.dropWhile_blank, h.rdropWhile_blank]
  have hreads : bytes "  " <+: keyLine 2 key after ∧ colon ∈ keyLine 2 key after :=
    ⟨List.prefix_append (spaces 2) _, by simp [keyLine]⟩
  rw [definedService, if_pos hreads]
  exact (congrArg (fun service => if service = [] then none else some service) hservice).trans
    (if_neg h.1)

/-- Of a service in a two-space file. -/
theorem ServiceText.mem_tagged {s : ServiceText} (hw : s.Written 2) (hp : s.Plain)
    {x : TaggedLine} (hx : x ∈ s.tagged 2) {name : Bytes} (hname : x.2 = some name) :
    definedService x.1 = some name := by
  rw [ServiceText.tagged, List.mem_cons] at hx
  rcases hx with rfl | hx
  · rw [← Option.some.inj hname, ← written_of_plain hp.1]
    exact definedService_keyLine hw.2.1 _
  · obtain ⟨l, -, rfl⟩ := List.mem_map.1 hx
    cases hname

theorem FileText.TwoSpaces.mem_tagged {doc : FileText} (h : doc.TwoSpaces) {x : TaggedLine}
    (hx : x ∈ doc.tagged) {name : Bytes} (hname : x.2 = some name) :
    definedService x.1 = some name := by
  rw [FileText.tagged, List.mem_append] at hx
  rcases hx with hx | hx
  · obtain ⟨l, -, rfl⟩ := List.mem_map.1 hx
    cases hname
  · obtain ⟨sec, hsec, hx⟩ := List.mem_flatMap.1 hx
    cases sec with
    | services trail between inner texts =>
        obtain rfl := h.inner _ hsec _ _ _ _ rfl
        rw [Section.tagged, List.mem_cons, List.mem_append] at hx
        rcases hx with rfl | hx | hx
        · cases hname
        · obtain ⟨l, -, rfl⟩ := List.mem_map.1 hx
          cases hname
        · obtain ⟨s, hs, hx⟩ := List.mem_flatMap.1 hx
          have hw := (h.written.2.1 _ hsec).2.2.2 s hs
          exact ServiceText.mem_tagged hw ((h.plain _ hsec).2 s hs) hx hname
    | other key after nested below =>
        obtain ⟨l, -, rfl⟩ := List.mem_map.1 hx
        cases hname

/-! ## The two lists -/

theorem readLinesOf_sublist {α : Type*} (line : α → Bytes) (ls : List α) :
    (readLinesOf line ls).Sublist ls :=
  (List.takeWhile_sublist _).trans (List.dropWhile_sublist _)

theorem FileText.seen_sublist (doc : FileText) :
    doc.seen.Sublist (doc.texts.map (·.name.value)) := by
  rw [← doc.filterMap_tagged]
  exact (List.filter_sublist.trans (readLinesOf_sublist _ _)).filterMap _

/-- What the lines of services give is what the agent sees. -/
theorem FileText.TwoSpaces.seen_eq {doc : FileText} (h : doc.TwoSpaces) :
    ((readLinesOf Prod.fst doc.tagged).filter fun x => x.2.isSome).filterMap
      (fun x => givenName x.1) = doc.seen := by
  rw [FileText.seen, List.filterMap_filter, List.filterMap_filter]
  refine List.filterMap_congr fun x hx => ?_
  rw [givenName]
  cases hname : x.2 with
  | none => cases mentionsServices x.1 <;> rfl
  | some name =>
      rw [h.mem_tagged ((readLinesOf_sublist _ _).subset hx) hname]
      cases mentionsServices x.1 <;> rfl

/-- The agent finds the services that it sees, and the strays. -/
theorem FileText.TwoSpaces.discoverServices_perm {doc : FileText} (h : doc.TwoSpaces) :
    (discoverServices false doc.lines).Perm (doc.seen ++ doc.strays) := by
  rw [discoverServices_false, ← doc.map_tagged, ← map_readLinesOf, List.filterMap_map, ← h.seen_eq,
    FileText.strays, ← List.filterMap_append]
  exact ((List.filter_append_perm _ _).filterMap _).symm

/-- The parser's keys are the declared services. -/
theorem Holds.mem_keys {compose : ComposeFile} {services : List (Bytes × List Bytes × Bytes)}
    (h : Holds compose services) (name : Bytes) :
    name ∈ compose.services.keys ↔ name ∈ services.map Prod.fst := by
  rw [OrdMap.mem_keys, ← OrdMap.isSome_lookup, ← h name, Option.isSome_map,
    Option.isSome_iff_exists]

/-- In a compose file in two-space block style the two readers find the same services exactly
if every name that the agent is given by another line is that of one service it does not see,
and every such service is given so. -/
theorem readersAgree_iff (doc : FileText) (h : doc.TwoSpaces) (text : Bytes)
    (htext : getLines text = doc.lines) : ReadersAgree text ↔ doc.StraysStandIn := by
  obtain ⟨compose, hparse, hholds⟩ := parse_reads_plain doc h.written h.plain text htext
  have hkeys : ∀ name, name ∈ compose.services.keys ↔ name ∈ doc.texts.map (·.name.value) := by
    intro name
    rw [hholds.mem_keys, FileText.listed, List.map_map]
    rfl
  have hperm : (discoverServices false (getLines text)).Perm (doc.seen ++ doc.strays) := by
    rw [htext]
    exact h.discoverServices_perm
  have hseen : doc.seen.Nodup := h.written.2.2.sublist doc.seen_sublist
  have hmem : ∀ name, name ∈ discoverServices false (getLines text) ↔
      name ∈ doc.seen ∨ name ∈ doc.strays := fun name => by rw [hperm.mem_iff, List.mem_append]
  constructor
  · rintro ⟨hnodup, compose', hparse', hsame⟩
    obtain rfl : compose = compose' := Option.some.inj (hparse.symm.trans hparse')
    obtain ⟨-, hstrays, hdisjoint⟩ := List.nodup_append.1 (hperm.nodup_iff.1 hnodup)
    refine ⟨hstrays, fun name => ⟨fun hstray => ⟨?_, ?_⟩, fun ⟨hname, hunseen⟩ => ?_⟩⟩
    · exact (hkeys name).1 ((hsame name).1 ((hmem name).2 (Or.inr hstray)))
    · exact fun hsaw => hdisjoint name hsaw name hstray rfl
    · exact ((hmem name).1 ((hsame name).2 ((hkeys name).2 hname))).resolve_left hunseen
  · rintro ⟨hstrays, hunseen⟩
    refine ⟨?_, compose, hparse, fun name => ?_⟩
    · refine hperm.nodup_iff.2 (List.nodup_append.2 ⟨hseen, hstrays, ?_⟩)
      rintro name hsaw _ hstray rfl
      exact ((hunseen name).1 hstray).2 hsaw
    · rw [hmem, hkeys, hunseen]
      by_cases hsaw : name ∈ doc.seen
      · exact iff_of_true (Or.inl hsaw) (doc.seen_sublist.subset hsaw)
      · simp only [hsaw, false_or, not_false_eq_true, and_true]

/-- A file whose services are names alone. -/
def namesFile : FileText where
  before := [.comment 0 (bytes " stack")]
  indent := 0
  sections := [
    .services noTrail [.blank []] 2 [
      ⟨plainScalar "web", noteTrail, [.comment 4 []], 4, []⟩,
      ⟨plainScalar "db", noTrail, [], 4, []⟩],
    .other (bytes "volumes") [] [keyLine 2 (bytes "data") []] []]

theorem namesFile_twoSpaces : namesFile.TwoSpaces where
  written := by decide +kernel
  plain := by decide +kernel
  indent := rfl
  inner := by
    intro sec hsec trail between inner texts heq
    rw [namesFile, List.mem_cons, List.mem_singleton] at hsec
    rcases hsec with rfl | rfl
    · exact (Section.services.inj heq).2.2.1.symm
    · cases heq

theorem readersAgree_iff_names :
    ReadersAgree (unlines namesFile.lines) ↔ namesFile.StraysStandIn :=
  readersAgree_iff namesFile namesFile_twoSpaces (unlines namesFile.lines) (by decide +kernel)

/-- The keys of a service are services to the agent. -/
theorem image_not_readersAgree :
    ¬ ReadersAgree (bytes "services:\n  web:\n    image: nginx\n") := by
  rintro ⟨-, compose, hparse, hsame⟩
  obtain rfl := Option.some.inj hparse
  have hfound : bytes "image" ∈
      discoverServices false (getLines (bytes "services:\n  web:\n    image: nginx\n")) := by
    decide +kernel
  exact absurd ((hsame (bytes "image")).1 hfound) (by decide +kernel)

end Nazg.Docker

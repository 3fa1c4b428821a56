import Nazg.Proofs.ComposeServices

/-!
# The services of a file

A section that is not `services:` leaves the services as they were, and what its own
loop leaves of it the loop of `parse` steps over; so the parser comes from section to
section, and the map it returns holds exactly the services of a plain text.
-/

namespace Nazg.Docker

open Lib

/-! ## The other sections -/

theorem not_below_of_networksTurn {m : Nat} {c : ComposeFile} {l : Line} {ls : List Line}
    (h : networksTurn m c l ls = none) : ¬ Below m l := by
  rw [networksTurn] at h
  dsimp only at h
  split_ifs at h with hnoise hle
  rintro (hn | hlt)
  · exact hnoise hn
  · omega

theorem parseNetworksSection_barrier {m : Nat} {rest ls : List Line} (hstops : Stops m rest)
    (hrest : rest <:+ ls) (c : ComposeFile) : rest <:+ (parseNetworksSection m c ls).2 := by
  refine run_barrier (networksTurn_forward m) ?_ ?_ hrest
  · rintro c l ls rfl
    obtain ⟨hnoise, hle⟩ := hstops l ls rfl
    rw [networksTurn, hnoise, if_neg Bool.false_ne_true]
    exact if_pos hle
  · intro c l ls c' ls' hsuf hturn
    rw [networksTurn] at hturn
    dsimp only at hturn
    split_ifs at hturn with hnoise hle
    · cases hturn
      exact hsuf
    · cases hturn
      exact hsuf
    · obtain ⟨-, rfl⟩ := Prod.mk.inj (Option.some.inj hturn)
      exact parseBlock_barrier (hstops.mono (by omega)) hsuf _

theorem parseNetworksSection_services (m : Nat) (c : ComposeFile) (ls : List Line) :
    (parseNetworksSection m c ls).1.services = c.services := by
  refine run_invariant (networksTurn_forward m)
    (p := fun c' : ComposeFile => c'.services = c.services) ?_ rfl
  intro c₁ l ls c' ls' h hturn
  rw [networksTurn] at hturn
  dsimp only at hturn
  split_ifs at hturn
  · cases hturn
    exact h
  · cases hturn
    exact h
  · obtain ⟨rfl, -⟩ := Prod.mk.inj (Option.some.inj hturn)
    exact h

theorem parseTopVolumes_services (m : Nat) (c : ComposeFile) (ls : List Line) :
    (parseBlock m addTopVolume c ls).1.services = c.services := by
  refine run_invariant (blockTurn_forward m _)
    (p := fun c' : ComposeFile => c'.services = c.services) ?_ rfl
  intro c₁ l ls c' ls' h hturn
  rw [blockTurn] at hturn
  split_ifs at hturn
  · cases hturn
    exact h
  · cases hturn
    exact h

/-- A key at the top that is not `services` leaves the services alone and does not run
into the next section. -/
theorem parseTopKey_other {m : Nat} {key : Bytes} (value : Bytes) (hkey : key ≠ bytes "services")
    {rest ls : List Line} (hstops : Stops m rest) (hrest : rest <:+ ls) (c : ComposeFile) :
    (parseTopKey m key value c ls).1.services = c.services ∧
      rest <:+ (parseTopKey m key value c ls).2 := by
  rw [parseTopKey]
  split_ifs
  · exact ⟨rfl, hrest⟩
  · exact ⟨parseNetworksSection_services m c ls, parseNetworksSection_barrier hstops hrest c⟩
  · exact ⟨parseTopVolumes_services m c ls, parseBlock_barrier hstops hrest c⟩
  · exact ⟨rfl, hrest⟩

theorem run_keyLine {m : Nat} {key : Bytes} (hkey : KeyText key) (after : Bytes)
    (c : ComposeFile) (ls : List Line) :
    run fileTurn c (keyLine m key after :: ls) =
      run fileTurn (parseTopKey m key (unquote (trim after)) c ls).1
        (parseTopKey m key (unquote (trim after)) c ls).2 := by
  refine run_of_some fileTurn_forward ?_
  rw [fileTurn, isNoise_keyLine hkey, if_neg Bool.false_ne_true, getIndentLevel_keyLine hkey,
    extractKey_keyLine hkey, extractValue_keyLine hkey]

/-- A line that the loop of `parse` may come upon below another key without harm. -/
def Inert (r : Nat) (l : Line) : Prop :=
  isNoise l = true ∨ (r < getIndentLevel l ∧ extractKey l ≠ bytes "services")

theorem run_inert {r : Nat} {pre rest : List Line} (hpre : ∀ l ∈ pre, Inert r l)
    (hstops : Stops r rest) (c : ComposeFile) :
    ∃ c', c'.services = c.services ∧ run fileTurn c (pre ++ rest) = run fileTurn c' rest := by
  induction hlen : pre.length using Nat.strongRecOn generalizing pre c with
  | _ n ih =>
      subst hlen
      cases pre with
      | nil => exact ⟨c, rfl, rfl⟩
      | cons l pre =>
          have hpre' : ∀ x ∈ pre, Inert r x := fun x hx => hpre x (List.mem_cons_of_mem _ hx)
          cases hn : isNoise l with
          | true =>
              obtain ⟨c', hc', hrun⟩ := ih pre.length (Nat.lt_succ_self _) hpre' c rfl
              refine ⟨c', hc', ?_⟩
              rw [List.cons_append, run_of_some fileTurn_forward (by rw [fileTurn, if_pos hn]),
                hrun]
          | false =>
              -- the key's own loop may take some of the lines that follow
              rcases hpre l List.mem_cons_self with hnoise | ⟨hlt, hkey⟩
              · rw [hn] at hnoise
                cases hnoise
              · obtain ⟨hserv, left, hleft⟩ := parseTopKey_other (extractValue l) hkey
                  (hstops.mono (Nat.le_of_lt hlt)) (List.suffix_append pre rest) c
                obtain ⟨taken, htaken⟩ := parseTopKey_suffix (getIndentLevel l) (extractKey l)
                  (extractValue l) c (pre ++ rest)
                rw [← hleft, ← List.append_assoc, List.append_left_inj] at htaken
                have hmem : ∀ x ∈ left, x ∈ pre := fun x hx => by
                  rw [← htaken]
                  exact List.mem_append_right taken hx
                have hle : left.length ≤ pre.length := by
                  rw [← htaken, List.length_append]
                  omega
                obtain ⟨c', hc', hrun⟩ := ih left.length (Nat.lt_succ_of_le hle)
                  (fun x hx => hpre' x (hmem x hx)) _ rfl
                refine ⟨c', hc'.trans hserv, ?_⟩
                rw [List.cons_append, run_of_some fileTurn_forward
                  (by rw [fileTurn, hn, if_neg Bool.false_ne_true]), ← hleft, hrun]

/-- What a section with another key leaves in front of the next one is inert. -/
theorem parseTopKey_left {r : Nat} {key : Bytes} {after : Bytes} {nested : List Line}
    {below : List Noise} (hw : (Section.other key after nested below).Written r)
    (hp : (Section.other key after nested below).Plain r) {rest : List Line}
    (hstops : Stops r rest) (value : Bytes) (c : ComposeFile) :
    ∃ left, (∀ l ∈ left, Inert r l) ∧
      (parseTopKey r key value c (nested ++ (below.map (·.line) ++ rest))).2 = left ++ rest := by
  obtain ⟨-, hkey, hnested, hbelow⟩ := hw
  have hnoise : ∀ l ∈ below.map (·.line), isNoise l = true := by
    intro l hl
    obtain ⟨x, hx, rfl⟩ := List.mem_map.1 hl
    exact isNoise_line (hbelow x hx)
  have hinert : ∀ left, left <:+ below.map (·.line) → ∀ l ∈ left, Inert r l :=
    fun left hleft l hl => Or.inl (hnoise l (hleft.subset hl))
  have hsuf : rest <:+ nested ++ (below.map (·.line) ++ rest) :=
    ⟨nested ++ below.map (·.line), List.append_assoc _ _ _⟩
  rcases hp with rfl | ⟨rfl, hapart⟩ | hother
  · obtain ⟨left, hleft, hrun⟩ := run_leftover (networksTurn_forward r)
      (fun _ _ _ => not_below_of_networksTurn) hnested
      (parseNetworksSection_barrier hstops hsuf c)
    exact ⟨left, hinert left hleft, hrun⟩
  · obtain ⟨left, hleft, hrun⟩ := run_leftover (blockTurn_forward r addTopVolume)
      (fun _ _ _ => not_belowApart_of_blockTurn) hapart (parseBlock_barrier hstops hsuf c)
    exact ⟨left, hinert left hleft, hrun⟩
  · obtain ⟨-, left, hleft⟩ := parseTopKey_other value hkey hstops hsuf c
    obtain ⟨taken, htaken⟩ := parseTopKey_suffix r key value c
      (nested ++ (below.map (·.line) ++ rest))
    rw [← hleft, ← List.append_assoc, ← List.append_assoc nested,
      List.append_left_inj] at htaken
    refine ⟨left, fun l hl => ?_, hleft.symm⟩
    have hmem : l ∈ nested ++ below.map (·.line) := by
      rw [← htaken]
      exact List.mem_append_right taken hl
    rcases List.mem_append.1 hmem with hl | hl
    · rcases hother l hl with hn | hne
      · exact Or.inl hn
      · exact (hnested l hl).imp_right fun hlt => ⟨hlt, hne⟩
    · exact Or.inl (hnoise l hl)

theorem Holds.of_services {c c' : ComposeFile} {services : List (Bytes × List Bytes × Bytes)}
    (h : Holds c services) (heq : c'.services = c.services) : Holds c' services := by
  intro name
  rw [heq]
  exact h name

/-- One section: the cursor comes to the next one, and the map holds its services too. -/
theorem run_section {r : Nat} {sec : Section} (hw : sec.Written r) (hp : sec.Plain r)
    {rest : List Line} (hstops : Stops r rest) {c : ComposeFile}
    {done : List (Bytes × List Bytes × Bytes)} (hdone : Holds c done)
    (hnodup : ((done ++ sec.texts.map (·.read)).map Prod.fst).Nodup) :
    ∃ c', run fileTurn c (sec.lines r ++ rest) = run fileTurn c' rest ∧
      Holds c' (done ++ sec.texts.map (·.read)) := by
  cases sec with
  | services trail between inner texts =>
      obtain ⟨-, hbetween, hinner, htexts⟩ := hw
      obtain ⟨c', hrun, hholds⟩ := run_services hinner htexts hp.2 hstops hdone hnodup
      have hskip : ∀ l ∈ between.map (·.line), ∀ s ls, servicesTurn r s l ls = some (s, ls) := by
        intro l hl s ls
        obtain ⟨x, hx, rfl⟩ := List.mem_map.1 hl
        rw [servicesTurn, isFlushNoise_line (hbetween x hx) (hp.1 x hx), if_pos rfl]
      refine ⟨c', ?_, hholds⟩
      rw [Section.lines, List.cons_append, List.append_assoc, run_keyLine keyText_services]
      show run fileTurn (run (servicesTurn r) c _).1 (run (servicesTurn r) c _).2 = _
      rw [run_of_skip (servicesTurn_forward r) hskip, hrun]
  | other key after nested below =>
      obtain ⟨left, hinert, hleft⟩ :=
        parseTopKey_left hw hp hstops (unquote (trim after)) c
      have hsuf : rest <:+ nested ++ (below.map (·.line) ++ rest) :=
        ⟨nested ++ below.map (·.line), List.append_assoc _ _ _⟩
      have hserv := (parseTopKey_other (unquote (trim after)) hw.2.1 hstops hsuf c).1
      obtain ⟨c', hc', hrun⟩ := run_inert hinert hstops
        (parseTopKey r key (unquote (trim after)) c (nested ++ (below.map (·.line) ++ rest))).1
      refine ⟨c', ?_, ?_⟩
      · rw [Section.lines, List.cons_append, List.append_assoc, run_keyLine hw.1, hleft, hrun]
      · rw [show (Section.other key after nested below).texts = [] from rfl, List.map_nil,
          List.append_nil]
        exact hdone.of_services (hc'.trans hserv)

theorem stops_sections {r : Nat} {sections : List Section} (hw : ∀ s ∈ sections, s.Written r) :
    Stops r (sections.flatMap (·.lines r)) := by
  cases sections with
  | nil => exact stops_nil r
  | cons s sections =>
      have hs := hw s List.mem_cons_self
      cases s with
      | services => exact stops_keyLine keyText_services _ _ (Nat.le_refl r)
      | other => exact stops_keyLine hs.1 _ _ (Nat.le_refl r)

theorem run_sections {r : Nat} {sections : List Section} (hw : ∀ s ∈ sections, s.Written r)
    (hp : ∀ s ∈ sections, s.Plain r) {c : ComposeFile}
    {done : List (Bytes × List Bytes × Bytes)} (hdone : Holds c done)
    (hnodup : ((done ++ (sections.flatMap (·.texts)).map (·.read)).map Prod.fst).Nodup) :
    Holds (run fileTurn c (sections.flatMap (·.lines r))).1
      (done ++ (sections.flatMap (·.texts)).map (·.read)) := by
  induction sections generalizing c done with
  | nil =>
      rw [List.flatMap_nil, List.flatMap_nil, List.map_nil, List.append_nil]
      exact hdone
  | cons s sections ih =>
      have hlist : done ++ ((s :: sections).flatMap (·.texts)).map (·.read) =
          done ++ s.texts.map (·.read) ++ (sections.flatMap (·.texts)).map (·.read) := by
        rw [List.flatMap_cons, List.map_append, List.append_assoc]
      rw [hlist] at hnodup ⊢
      have hw' : ∀ x ∈ sections, x.Written r := fun x hx => hw x (List.mem_cons_of_mem _ hx)
      have hfirst : ((done ++ s.texts.map (·.read)).map Prod.fst).Nodup :=
        hnodup.sublist ((List.sublist_append_left _ _).map Prod.fst)
      obtain ⟨c', hrun, hholds⟩ := run_section (hw s List.mem_cons_self) (hp s List.mem_cons_self)
        (stops_sections hw') hdone hfirst
      rw [List.flatMap_cons, hrun]
      exact ih hw' (fun x hx => hp x (List.mem_cons_of_mem _ hx)) hholds hnodup

theorem holds_init : Holds ComposeFile.init [] := fun _ => rfl

/-- Of a plain text the parser returns exactly the services, each with the names that its
block lists give and with its network mode. -/
theorem parse_reads_plain (doc : FileText) (hw : doc.Written) (hp : doc.Plain) (text : Bytes)
    (htext : getLines text = doc.lines) :
    ∃ compose, parse text = some compose ∧ Holds compose doc.listed := by
  obtain ⟨hbefore, hsections, hnodup⟩ := hw
  refine ⟨parseLines doc.lines, by rw [parse, htext], ?_⟩
  have hskip : ∀ l ∈ doc.before.map (·.line), ∀ s ls, fileTurn s l ls = some (s, ls) := by
    intro l hl s ls
    obtain ⟨x, hx, rfl⟩ := List.mem_map.1 hl
    rw [fileTurn, if_pos (isNoise_line (hbefore x hx))]
  have hnodup' : ((doc.texts.map (·.read)).map Prod.fst).Nodup := by
    rw [List.map_map]
    exact hnodup
  rw [parseLines, FileText.lines, run_of_skip fileTurn_forward hskip]
  exact run_sections hsections hp holds_init hnodup'

def plainScalar (value : String) : Scalar := ⟨bytes value, .plain⟩

def quotedScalar (value : String) : Scalar := ⟨bytes value, .double⟩

/-- Nothing behind the last word of a line. -/
def noTrail : Trail := ⟨[], none⟩

/-- A comment behind the last word of a line. -/
def noteTrail : Trail := ⟨[], some (bytes " note")⟩

def dbItem (before : List Noise) (name : Scalar) (trail : Trail) : EntryBody :=
  .dependsOn (.list noTrail [⟨before, 6, 0, name, trail⟩])

/-- Two services, one that depends on the other, between two other sections. -/
def plainFile : FileText where
  before := [.comment 4 (bytes " stack"), .blank []]
  indent := 0
  sections := [
    .other (bytes "version") (bytes " '3'") [] [.comment 2 (bytes " services:")],
    .services noteTrail [.comment 0 []] 2 [
      ⟨plainScalar "web", noteTrail, [.comment 3 []], 4,
        [⟨dbItem [.comment 6 []] (plainScalar "db") noTrail, [.comment 2 []]⟩,
          ⟨.networkMode 0 (quotedScalar "host") noTrail, []⟩]⟩,
      ⟨plainScalar "db", noTrail, [], 4, []⟩],
    .other (bytes "networks") [] [keyLine 2 (bytes "services") []] []]

theorem parse_reads_plain_file : ∃ compose, parse (unlines plainFile.lines) = some compose ∧
    Holds compose [(bytes "web", [bytes "db"], bytes "host"), (bytes "db", [], [])] :=
  parse_reads_plain plainFile (by decide +kernel) (by decide +kernel) (unlines plainFile.lines)
    (by decide +kernel)

/-- A file with one service that has one entry. -/
def oneEntry (between : List Noise) (name : Scalar) (body : EntryBody) : FileText where
  before := []
  indent := 0
  sections := [.services noTrail between 2 [⟨name, noTrail, [], 4, [⟨body, []⟩]⟩]]

def webEntry (body : EntryBody) : FileText := oneEntry [] (plainScalar "web") body

def hostMode (trail : Trail) : EntryBody := .networkMode 0 (plainScalar "host") trail

/-- Files that are not read as they are written, each with a name at which the map is
wrong. -/
def misread : List (FileText × Bytes) := [
  -- an inline list, a mapping, a quoted item and a comment behind an item
  (webEntry (.dependsOn (.inline [plainScalar "db"] noTrail)), bytes "web"),
  (webEntry (.dependsOn (.mapping noTrail [⟨[], 6, plainScalar "db", noTrail,
    [keyLine 8 (bytes "condition") (bytes " service_started")]⟩])), bytes "web"),
  (webEntry (dbItem [] (quotedScalar "db") noTrail), bytes "web"),
  (webEntry (dbItem [] (plainScalar "db") noteTrail), bytes "web"),
  -- a comment behind the mode, and a quoted name
  (webEntry (hostMode noteTrail), bytes "web"),
  (oneEntry [] (quotedScalar "web") (hostMode noTrail), bytes "web"),
  -- a comment that ends the loop below a key, and one that is taken for a service
  (webEntry (dbItem [.comment 4 []] (plainScalar "db") noTrail), bytes "web"),
  (webEntry (.other (bytes "environment") []
    [spaces 4 ++ [hash], keyLine 6 (bytes "network_mode") (bytes " host")]), bytes "web"),
  (oneEntry [.comment 2 []] (plainScalar "web") (hostMode noTrail), bytes "#"),
  -- `services:` below a key that the parser does not know
  (⟨[], 0, [.other (bytes "x-old") []
    [keyLine 2 (bytes "services") [], keyLine 4 (bytes "web") []] []]⟩, bytes "web")]

/-- What a text declares is not always what is read. -/
theorem parse_misreads : misread.Forall fun e => e.1.Written ∧
    getLines (unlines e.1.lines) = e.1.lines ∧
      ∀ compose, parse (unlines e.1.lines) = some compose → ¬ Holds compose e.1.declared := by
  refine List.forall_iff_forall_mem.2 fun e he => ?_
  have hwritten : ∀ e ∈ misread, e.1.Written := by decide +kernel
  have hlines : ∀ e ∈ misread, getLines (unlines e.1.lines) = e.1.lines := by decide +kernel
  have hwrong : ∀ e ∈ misread,
      ((parseLines (getLines (unlines e.1.lines))).services.find? e.2).map (·.read) ≠
        OrdMap.lookup e.2 e.1.declared := by
    decide +kernel
  refine ⟨hwritten e he, hlines e he, fun compose hparse hholds => ?_⟩
  rw [parse, Option.some_inj] at hparse
  exact hwrong e he (hparse ▸ hholds e.2)

end Nazg.Docker

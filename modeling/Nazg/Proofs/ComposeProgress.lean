import Nazg.Docker.ComposeParser

/-!
# The loops of the compose parser end

Every loop moves the shared cursor in each iteration, though most leave without advancing: where
one is entered, the line that led to it has been taken. With the position and all the lines in
hand the functions do what they do with the remaining lines alone, so none of them ever reads
behind the end, stands still or runs on.
-/

namespace Nazg.Docker

open Lib

section Lines

variable {fuel : Nat} {lines : List Line}

theorem below_of_drop {ls : List Line} {line : Line} {pos : Nat}
    (h : lines.drop pos = line :: ls) :
    pos + 1 ≤ lines.length ∧ ls = lines.drop (pos + 1) := by
  have hlength := congrArg List.length h
  rw [List.length_drop, List.length_cons] at hlength
  have hnext : lines.drop (pos + 1) = ls := by
    rw [← List.tail_drop, h, List.tail_cons]
  exact ⟨by omega, hnext.symm⟩

variable (hfuel : lines.length < fuel)

include hfuel

theorem parseBlockAt_eq {σ : Type} (indent : Nat) (f : σ → Line → σ) (s : σ) {pos : Nat}
    (hpos : pos ≤ lines.length) :
    parseBlockAt fuel lines indent f s pos =
      .ok (located lines (parseBlock indent f s (lines.drop pos))) := by
  apply whileLoop_eq_run (blockTurn_forward indent f) _ (by omega) hpos
  intro s pos line ls hdrop
  rw [readAt_of_drop hdrop, Except.bind, blockTurn]
  split
  · rw [Option.map_some, located_of_drop hdrop]
  · split
    · rfl
    · rw [Option.map_some, located_of_drop hdrop]

/-- The block below the line that has been read. -/
theorem parseBlockAt_below {σ : Type} (indent : Nat) (f : σ → Line → σ) (s : σ) {pos : Nat}
    {line : Line} {ls : List Line} (hdrop : lines.drop pos = line :: ls) :
    parseBlockAt fuel lines indent f s (pos + 1) =
      .ok (located lines (parseBlock indent f s ls)) := by
  obtain ⟨hpos, rfl⟩ := below_of_drop hdrop
  exact parseBlockAt_eq hfuel indent f s hpos

theorem parseServiceNetworksAt_eq (service : ComposeService) {pos : Nat} {header : Line}
    {ls : List Line} (hheader : lines.drop pos = header :: ls) :
    parseServiceNetworksAt fuel lines service pos =
      .ok (located lines (parseServiceNetworks (getIndentLevel header) service ls)) := by
  obtain ⟨hpos, hls⟩ := below_of_drop hheader
  rw [parseServiceNetworksAt, readAt_of_drop hheader, Except.bind, hls]
  apply whileLoop_eq_run (serviceNetworksTurn_forward _) _ (by omega) hpos
  intro service pos line ls hdrop
  rw [readAt_of_drop hdrop, Except.bind, serviceNetworksTurn]
  split
  · rw [Option.map_some, located_of_drop hdrop]
  · split
    · rfl
    · split
      · rw [Option.map_some, located_of_drop hdrop]
      · dsimp only
        rw [parseBlockAt_below hfuel _ _ _ hdrop]
        rfl

theorem parseServiceKeyAt_eq (key value : Bytes) (service : ComposeService) {pos : Nat}
    {line : Line} {ls : List Line} (hdrop : lines.drop pos = line :: ls) :
    parseServiceKeyAt fuel lines (getIndentLevel line) key value service pos =
      .ok (located lines (parseServiceKey (getIndentLevel line) key value service ls)) := by
  rw [parseServiceKeyAt, parseServiceKey]
  split_ifs
  · rw [located_of_drop hdrop]
  · rw [located_of_drop hdrop]
  · rw [located_of_drop hdrop]
  · rw [located_of_drop hdrop]
  · rw [located_of_drop hdrop]
  · exact parseBlockAt_below hfuel _ _ _ hdrop
  · exact parseServiceNetworksAt_eq hfuel _ hdrop
  · exact parseBlockAt_below hfuel _ _ _ hdrop
  · exact parseBlockAt_below hfuel _ _ _ hdrop
  · exact parseBlockAt_below hfuel _ _ _ hdrop

theorem parseServiceAt_eq (serviceName : Bytes) (service : ComposeService) {pos : Nat}
    {header : Line} {ls : List Line} (hheader : lines.drop pos = header :: ls) :
    parseServiceAt fuel lines serviceName service pos =
      .ok (located lines
        (parseService (getIndentLevel header) { service with name := serviceName } ls)) := by
  obtain ⟨hpos, hls⟩ := below_of_drop hheader
  rw [parseServiceAt, readAt_of_drop hheader, Except.bind, hls]
  apply whileLoop_eq_run (serviceTurn_forward _) _ (by omega) hpos
  intro service pos line ls hdrop
  rw [readAt_of_drop hdrop, Except.bind, serviceTurn]
  split
  · rw [Option.map_some, located_of_drop hdrop]
  · split
    · rfl
    · rw [parseServiceKeyAt_eq hfuel _ _ _ hdrop]
      rfl

theorem parseNetworksSectionAt_eq (compose : ComposeFile) {pos : Nat} {header : Line}
    {ls : List Line} (hheader : lines.drop pos = header :: ls) :
    parseNetworksSectionAt fuel lines compose pos =
      .ok (located lines (parseNetworksSection (getIndentLevel header) compose ls)) := by
  obtain ⟨hpos, hls⟩ := below_of_drop hheader
  rw [parseNetworksSectionAt, readAt_of_drop hheader, Except.bind, hls]
  apply whileLoop_eq_run (networksTurn_forward _) _ (by omega) hpos
  intro compose pos line ls hdrop
  rw [readAt_of_drop hdrop, Except.bind, networksTurn]
  split
  · rw [Option.map_some, located_of_drop hdrop]
  · simp only
    split
    · rfl
    · split
      · rw [Except.map, Option.map_some, located_of_drop hdrop]
      · rw [parseBlockAt_below hfuel _ _ _ hdrop]
        rfl

theorem parseServicesAt_eq (servicesIndent : Nat) (compose : ComposeFile) {pos : Nat}
    {line : Line} {ls : List Line} (hdrop : lines.drop pos = line :: ls) :
    parseServicesAt fuel lines servicesIndent compose (pos + 1) =
      .ok (located lines (run (servicesTurn servicesIndent) compose ls)) := by
  obtain ⟨hpos, hls⟩ := below_of_drop hdrop
  rw [hls]
  apply whileLoop_eq_run (servicesTurn_forward _) _ (by omega) hpos
  intro compose pos line ls hdrop
  rw [readAt_of_drop hdrop, Except.bind, servicesTurn]
  split
  · rw [Option.map_some, located_of_drop hdrop]
  · split
    · rfl
    · dsimp only
      rw [parseServiceAt_eq hfuel _ _ hdrop]
      rfl

theorem parseLinesAt_eq (compose : ComposeFile) {pos : Nat} (hpos : pos ≤ lines.length) :
    parseLinesAt fuel lines compose pos =
      .ok (located lines (run fileTurn compose (lines.drop pos))) := by
  apply whileLoop_eq_run fileTurn_forward _ (by omega) hpos
  intro compose pos line ls hdrop
  rw [readAt_of_drop hdrop, Except.bind, fileTurn]
  split
  · rw [Option.map_some, located_of_drop hdrop]
  · simp only [parseTopKey]
    split_ifs
    · rw [Except.map, Option.map_some, located_of_drop hdrop]
    · rw [parseServicesAt_eq hfuel _ _ hdrop]
      rfl
    · rw [parseNetworksSectionAt_eq hfuel _ hdrop]
      rfl
    · rw [parseBlockAt_below hfuel _ _ _ hdrop]
      rfl
    · rw [Except.map, Option.map_some, located_of_drop hdrop]

omit hfuel in
/-- The loop of `parse` goes to the end. -/
theorem run_fileTurn (compose : ComposeFile) (ls : List Line) :
    (run fileTurn compose ls).2 = [] := by
  have hrun := @run_rule _ _ _ fileTurn_forward (fun _ _ => True)
    (fun _ _ _ _ _ _ _ => trivial) compose ls trivial
  rcases hrun.2 with hnil | ⟨line, ls', -, hstop⟩
  · exact hnil
  · rw [fileTurn] at hstop
    split_ifs at hstop

omit hfuel in
/-- What is left behind a line lies behind it. -/
theorem lt_located {σ : Type} {pos : Nat} {line : Line} {ls : List Line} {r : σ × List Line}
    (hdrop : lines.drop pos = line :: ls) (hsuffix : r.2 <:+ ls) :
    pos < (located lines r).2 ∧ (located lines r).2 ≤ lines.length := by
  have hlength := congrArg List.length hdrop
  rw [List.length_drop, List.length_cons] at hlength
  have hle := hsuffix.length_le
  rw [located]
  constructor
  · show pos < lines.length - r.2.length
    omega
  · exact Nat.sub_le _ _

/-- The whole of `parse`, whose cursor begins at the first line. -/
theorem parseLinesAt_zero :
    parseLinesAt fuel lines ComposeFile.init 0 = .ok (parseLines lines, lines.length) := by
  rw [parseLinesAt_eq hfuel _ (Nat.zero_le _), List.drop_zero, located, run_fileTurn]
  rfl

/-- No function of the parser faults: none reads behind the end, none of its loops stands still,
and each returns with the cursor further on. -/
theorem parser_progress {pos : Nat} (hpos : pos < lines.length) :
    (∀ service, ∃ service' pos',
      parseServiceNetworksAt fuel lines service pos = .ok (service', pos') ∧
        pos < pos' ∧ pos' ≤ lines.length) ∧
      (∀ serviceName service, ∃ service' pos',
        parseServiceAt fuel lines serviceName service pos = .ok (service', pos') ∧
          pos < pos' ∧ pos' ≤ lines.length) ∧
      (∀ compose, ∃ compose' pos',
        parseNetworksSectionAt fuel lines compose pos = .ok (compose', pos') ∧
          pos < pos' ∧ pos' ≤ lines.length) ∧
      (∀ compose, ∃ compose' pos', parseLinesAt fuel lines compose pos = .ok (compose', pos') ∧
        pos < pos' ∧ pos' ≤ lines.length) ∧
      parseLinesAt fuel lines ComposeFile.init 0 = .ok (parseLines lines, lines.length) := by
  have hdrop : lines.drop pos = lines[pos] :: lines.drop (pos + 1) := List.drop_eq_getElem_cons hpos
  refine ⟨fun service => ?_, fun serviceName service => ?_, fun compose => ?_, fun compose => ?_,
    parseLinesAt_zero hfuel⟩
  · exact ⟨_, _, parseServiceNetworksAt_eq hfuel service hdrop,
      lt_located hdrop (parseServiceNetworks_suffix _ _ _)⟩
  · exact ⟨_, _, parseServiceAt_eq hfuel serviceName service hdrop,
      lt_located hdrop (parseService_suffix _ _ _)⟩
  · exact ⟨_, _, parseNetworksSectionAt_eq hfuel compose hdrop,
      lt_located hdrop (parseNetworksSection_suffix _ _ _)⟩
  · refine ⟨_, _, parseLinesAt_eq hfuel compose (Nat.le_of_lt hpos), lt_located hdrop ?_⟩
    rw [run_fileTurn]
    exact List.nil_suffix

end Lines

/-- A service behind a line that is no deeper than its section. -/
theorem parser_progress_flat :
    (parseServiceAt 4 [bytes "services:", bytes "web:", bytes " image: x"] (bytes "web")
      ComposeService.init 1).isOk = true := by
  have hfuel : [bytes "services:", bytes "web:", bytes " image: x"].length < 4 := by decide
  have hpos : 1 < [bytes "services:", bytes "web:", bytes " image: x"].length := by decide
  obtain ⟨service, pos, hparse, -⟩ :=
    (parser_progress hfuel hpos).2.1 (bytes "web") ComposeService.init
  rw [hparse]
  rfl

end Nazg.Docker

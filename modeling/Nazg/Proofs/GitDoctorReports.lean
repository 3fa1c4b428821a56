import Nazg.Bot.GitDoctorParser
import Nazg.Proofs.GitDoctorText

/-!
# Reading back what the git doctor prints

A name is found at its own place. But where a section ends is a matter of the braces in it, those of
paths included, and a note is cut at its brackets and its commas.
-/

namespace Nazg.Bot

open Lib

namespace GitDoctorBot

open GitReport

/-! ## What follows a name -/

section Located

variable {k : Bytes} {l l' : List (Bytes × Quoted)} {rest : Bytes}

theorem fromFirst_located {next t : Bytes} (h : Located k l l' rest)
    (ht : quotedText l' rest = 58 :: (next ++ t)) :
    fromFirst (marker k (58 :: next)) (quotedText l rest) =
      some (marker k (58 :: next) ++ t) := by
  have hbegins : 58 :: next <+: quotedText l' rest := by
    rw [ht]
    exact List.prefix_append (58 :: next) t
  rw [fromFirst_quotedText h hbegins, ht, ← List.cons_append, marker_append]

theorem fromFirst_space {t : Bytes} (h : Located k l l' rest)
    (ht : quotedText l' rest = bytes ": " ++ t) :
    fromFirst (marker k (bytes ": ")) (quotedText l rest) = some (marker k (bytes ": ") ++ t) :=
  fromFirst_located h ht

theorem afterFirst_located {next t : Bytes} (h : Located k l l' rest)
    (ht : quotedText l' rest = 58 :: (next ++ t)) :
    afterFirst (marker k (58 :: next)) (quotedText l rest) = some t := by
  rw [afterFirst, fromFirst_located h ht, Option.map_some, List.drop_left]

theorem afterFirst_space {t : Bytes} (h : Located k l l' rest)
    (ht : quotedText l' rest = bytes ": " ++ t) :
    afterFirst (marker k (bytes ": ")) (quotedText l rest) = some t :=
  afterFirst_located h ht

theorem findString_located {v t : Bytes} (h : Located k l l' rest) (hv : 34 ∉ v)
    (ht : quotedText l' rest = bytes ": " ++ 34 :: (v ++ 34 :: t)) :
    findString (quotedText l rest) k = some v := by
  have hopening : cut 34 (34 :: (v ++ 34 :: t)) = some ([], v ++ 34 :: t) :=
    cut_append List.not_mem_nil _
  rw [findString, afterFirst_space h ht, Option.bind_some, hopening, Option.bind_some, untilQuote,
    cut_append hv, Option.map_some]

theorem readString_located {v t : Bytes} (h : Located k l l' rest) (hv : 34 ∉ v)
    (ht : quotedText l' rest = bytes ": \"" ++ (v ++ 34 :: t)) :
    readString k (quotedText l rest) = some v := by
  have hafter : afterFirst (marker k (bytes ": \"")) (quotedText l rest) = some (v ++ 34 :: t) :=
    afterFirst_located h ht
  rw [readString, hafter, Option.bind_some, untilQuote, cut_append hv, Option.map_some]

theorem findBool_located {b : Bool} {t : Bytes} (h : Located k l l' rest)
    (ht : quotedText l' rest = bytes ": " ++ (boolText b ++ t)) :
    findBool (quotedText l rest) k = some b := by
  have hafter : afterFirst (marker k (bytes ":")) (quotedText l rest) =
      some (32 :: (boolText b ++ t)) := afterFirst_located h ht
  rw [findBool, hafter, Option.bind_some]
  cases b <;> rfl

theorem stod_natDecimal (n : Nat) : stod (natDecimal n) = some (n : ℚ) := by
  have hdigits : ∀ c ∈ natDecimal n, isDigit c = true := fun c hc => isDigit_of_mem_natDecimal hc
  have htake : (natDecimal n).takeWhile isDigit = natDecimal n :=
    List.takeWhile_eq_self_iff.2 hdigits
  have hdrop : (natDecimal n).dropWhile isDigit = [] := List.dropWhile_eq_nil_iff.2 hdigits
  simp [stod, htake, hdrop, natDecimal_ne_nil n, digitsValue_natDecimal]

theorem findNumber_located {n : Nat} {t : Bytes} (h : Located k l l' rest) (hn : n < 2 ^ 63)
    (ht : quotedText l' rest = bytes ": " ++ (decimal n ++ t))
    (hend : ∀ c, t.head? = some c → isDigit c = false ∧ c ≠ 46) :
    findNumber (quotedText l rest) k = some (truncate (binary64 n)) := by
  have hdecimal : decimal n = natDecimal n := rfl
  have hspace : (natDecimal n ++ t).dropWhile isSpace = natDecimal n ++ t := by
    cases hd : natDecimal n with
    | nil => exact absurd hd (natDecimal_ne_nil n)
    | cons c s =>
        have hdigit : isDigit c = true := natDecimal_head (by rw [hd, List.head?_cons])
        have hc : ¬ isSpace c = true := fun hs => by
          rw [not_isDigit_of_isSpace hs] at hdigit
          cases hdigit
        rw [List.cons_append, List.dropWhile_cons_of_neg hc]
  have htake : (natDecimal n ++ t).takeWhile (fun c => isDigit c || c = 46) = natDecimal n := by
    rw [List.takeWhile_append_of_pos fun c hc => by rw [isDigit_of_mem_natDecimal hc, Bool.true_or]]
    cases t with
    | nil => rw [List.takeWhile_nil, List.append_nil]
    | cons c t =>
        obtain ⟨hdigit, hpoint⟩ := hend c rfl
        rw [List.takeWhile_cons_of_neg (by simp [hdigit, hpoint]), List.append_nil]
  have hlt : (n : ℚ) < 2 ^ 63 := by exact_mod_cast hn
  rw [findNumber, afterFirst_space h ht, Option.bind_some, hdecimal, hspace, htake]
  simp only [stod_natDecimal, Option.bind_some, if_pos hlt]

/-- In what ends before it, a name is not found. -/
theorem fromFirst_before {next a b gap : Bytes} (h : Located k l l' rest)
    (hnext : 58 :: next <+: quotedText l' rest)
    (hl : quotedText l rest = a ++ (b ++ (gap ++ marker k (quotedText l' rest)))) :
    fromFirst (marker k (58 :: next)) a = none := by
  have hfirst := fromFirst_quotedText h hnext
  rw [hl] at hfirst
  refine fromFirst_eq_none (by simp [marker]) hfirst ?_
  simp only [List.length_append]
  omega

theorem cut_eq_none {c : UInt8} {s : Bytes} (h : c ∉ s) : cut c s = none := by
  have hdrop : s.dropWhile (fun x => x ≠ c) = [] := by
    refine List.dropWhile_eq_nil_iff.2 fun x hx => ?_
    have hne : x ≠ c := fun heq => h (heq ▸ hx)
    simpa using hne
  rw [cut, hdrop]

/-- In what ends before its closing quote, a string is not found. -/
theorem findString_before {v t a b : Bytes} (h : Located k l l' rest) (hv : 34 ∉ v)
    (ht : quotedText l' rest = bytes ": " ++ 34 :: (v ++ 34 :: t))
    (hl : quotedText l rest = a ++ (b ++ 34 :: t)) : findString a k = none := by
  have hwhole := fromFirst_space h ht
  rw [findString, afterFirst]
  cases hfirst : fromFirst (marker k (bytes ": ")) a with
  | none => rfl
  | some u =>
      obtain ⟨x, rfl⟩ := prefix_of_fromFirst hfirst
      rw [hl, fromFirst_append_of_eq (marker_ne_nil _ _) hfirst, Option.some_inj,
        List.append_assoc, List.append_cancel_left_eq, ← List.append_assoc, ← List.cons_append,
        List.append_cancel_right_eq] at hwhole
      rw [Option.map_some, List.drop_left, Option.bind_some]
      cases x with
      | nil => rfl
      | cons c x =>
          rw [List.cons_append, List.cons.injEq] at hwhole
          obtain ⟨rfl, rfl⟩ := hwhole
          have hx : 34 ∉ x := fun hx => hv (List.mem_append_left b hx)
          have hopening : cut 34 (34 :: x) = some ([], x) := cut_append List.not_mem_nil x
          rw [hopening, Option.bind_some, untilQuote, cut_eq_none hx]
          rfl

theorem extract_located {opening closing : UInt8} {s : Bytes} (h : Located k l l' rest)
    (hopening : opening ∉ marker k (bytes ": "))
    (hs : quotedText l' rest = bytes ": " ++ opening :: s) :
    extract opening closing k (quotedText l rest) = closed opening closing (opening :: s) := by
  have hskip : ∀ c ∈ marker k (bytes ": "), decide (c ≠ opening) = true := by
    intro c hc
    have hne : c ≠ opening := fun heq => hopening (heq ▸ hc)
    simpa using hne
  rw [extract, fromFirst_space h hs]
  simp only
  rw [List.dropWhile_append_of_pos hskip, List.dropWhile_cons_of_neg (by simp)]

end Located

/-! ## Sections -/

section Closed

variable {opening closing : UInt8}

theorem depthIn_zero_cons (c : UInt8) (s : Bytes) :
    depthIn opening closing 0 (c :: s) =
      if c = opening then depthIn opening closing 1 s else none := by
  by_cases hc : c = opening
  · rw [depthIn, countDelimiter, if_pos hc, if_pos hc, Nat.zero_add, if_neg one_ne_zero]
  · have hzero : countDelimiter opening closing 0 c = 0 := by
      rw [countDelimiter, if_neg hc]
      split <;> rfl
    rw [depthIn, if_pos hzero, if_neg hc]

/-- What does not close is nothing. -/
theorem closed_eq_nil {t : Bytes} {m : Nat} (h : depthIn opening closing 0 t = some m) :
    closed opening closing t = [] := by
  cases t with
  | nil => rfl
  | cons c s =>
      rw [depthIn_zero_cons] at h
      split at h
      · have hm : m ≠ 0 := depthIn_pos one_ne_zero h
        rw [closed, span_of_some one_ne_zero h]
        exact if_neg hm
      · cases h

/-- What closes in its beginning ends there. -/
theorem closed_of_none {u : Bytes} (hu : u.head? = some opening)
    (h : depthIn opening closing 0 u = none) (v : Bytes) :
    ∃ a b, u = a ++ b ∧ closed opening closing (u ++ v) = a := by
  cases u with
  | nil => cases hu
  | cons c u =>
      have hc : c = opening := by simpa using hu
      rw [depthIn_zero_cons, if_pos hc] at h
      obtain ⟨a, b, rfl, hspan⟩ := span_append_of_none one_ne_zero h v
      refine ⟨c :: a, b, rfl, ?_⟩
      rw [List.cons_append, closed, hspan]
      exact if_pos rfl

/-- What does not close in its beginning goes on. -/
theorem closed_of_some {u v : Bytes} {m : Nat} (hu : u.head? = some opening)
    (h : depthIn opening closing 0 u = some m) (hv : depthIn opening closing 0 (u ++ v) = none) :
    ∃ w, w <+: v ∧ closed opening closing (u ++ v) = u ++ w := by
  cases u with
  | nil => cases hu
  | cons c u =>
      have hc : c = opening := by simpa using hu
      rw [depthIn_zero_cons, if_pos hc] at h
      rw [List.cons_append, depthIn_zero_cons, if_pos hc] at hv
      obtain ⟨a, b, hab, hspan⟩ := span_append_of_none one_ne_zero hv []
      rw [List.append_nil, span_append one_ne_zero h, Prod.mk.injEq] at hspan
      refine ⟨(span opening closing m v).1, ?_, ?_⟩
      · rw [← hspan.1, List.append_assoc] at hab
        exact ⟨b, (List.append_cancel_left hab).symm⟩
      · rw [List.cons_append, closed, span_append one_ne_zero h, hspan.2]
        exact if_pos rfl

end Closed

/-! ## Braces -/

def braces (s : Bytes) : Bytes := s.filter fun c => c = 123 || c = 125

theorem braces_append (a b : Bytes) : braces (a ++ b) = braces a ++ braces b :=
  List.filter_append ..

theorem braces_append_left {a : Bytes} (h : braces a = []) (b : Bytes) :
    braces (a ++ b) = braces b := by
  rw [braces_append, h, List.nil_append]

theorem braces_quote (s : Bytes) : braces (34 :: s) = braces s := rfl

theorem braces_sectionStart (s : Bytes) : braces (sectionStart ++ s) = 123 :: braces s := rfl

theorem braces_sectionClose (s : Bytes) : braces (sectionClose ++ s) = 125 :: braces s := rfl

theorem braces_boolText (b : Bool) : braces (boolText b) = [] := by
  cases b <;> decide

theorem braces_backend (b : HttpBackend) : braces b.text = [] := by
  cases b <;> decide

theorem braces_severity (s : Severity) : braces s.text = [] := by
  cases s <;> decide

theorem braces_unit (s : UnitStatus) : braces s.text = [] := by
  cases s <;> decide

theorem braces_decimal (n : Int) : braces (decimal n) = [] := by
  refine List.filter_eq_nil_iff.2 fun c hc => ?_
  have hlt : c < 58 := mem_decimal_lt hc
  have hopening : c ≠ 123 := fun h => absurd (h ▸ hlt) (by decide)
  have hclosing : c ≠ 125 := fun h => absurd (h ▸ hlt) (by decide)
  simp [hopening, hclosing]

/-- Only the braces of a section count. -/
theorem depthIn_section {t s : Bytes} (ht : t.head? = some 123)
    (h : braces t = 123 :: braces s) : depthIn 123 125 0 t = depthIn 123 125 1 s := by
  cases t with
  | nil => cases ht
  | cons c t =>
      have hc : c = 123 := by simpa using ht
      rw [depthIn_zero_cons, if_pos hc]
      rw [hc] at h
      exact depthIn_congr one_ne_zero (List.cons.inj h).2

/-- The braces of a section are closed, and not before its last string. -/
def Closes (v rest : Bytes) : Prop :=
  depthIn 123 125 1 v ≠ none ∧ depthIn 123 125 1 (v ++ rest) = none

theorem closed_of_closes {t after v rest : Bytes} (ht : t.head? = some 123)
    (hbraces : braces t = 123 :: braces v) (hafter : braces after = braces rest)
    (h : Closes v rest) : ∃ w, closed 123 125 (t ++ after) = t ++ w := by
  obtain ⟨m, hm⟩ := Option.ne_none_iff_exists'.1 h.1
  have hdepth : depthIn 123 125 0 t = some m := by rw [depthIn_section ht hbraces, hm]
  have hend : depthIn 123 125 0 (t ++ after) = none := by
    rw [depthIn_section (s := v ++ rest)]
    · exact h.2
    · rw [List.head?_append, ht, Option.some_or]
    · rw [braces_append, hbraces, hafter, braces_append, List.cons_append]
  obtain ⟨w, -, hw⟩ := closed_of_some ht hdepth hend
  exact ⟨w, hw⟩

theorem closed_of_not_closes {u t after v rest : Bytes} (hu : u.head? = some 123)
    (hbraces : braces u = 123 :: braces v) (ht : braces t = []) (hafter : braces after = braces rest)
    (h : ¬ Closes v rest) : ∃ a b, u = a ++ b ∧ closed 123 125 (u ++ (t ++ after)) = a := by
  cases hdepth : depthIn 123 125 1 v with
  | none =>
      refine closed_of_none hu ?_ (t ++ after)
      rw [depthIn_section hu hbraces, hdepth]
  | some m =>
      refine ⟨[], u, rfl, ?_⟩
      cases hend : depthIn 123 125 1 (v ++ rest) with
      | none => exact absurd ⟨by rw [hdepth]; exact Option.some_ne_none m, hend⟩ h
      | some m' =>
          refine closed_eq_nil (m := m') ?_
          rw [depthIn_section (s := v ++ rest), hend]
          · rw [List.head?_append, hu, Option.some_or]
          · rw [braces_append, hbraces, braces_append, ht, hafter, braces_append, List.nil_append,
              List.cons_append]

theorem braces_checks (r : GitReport) (rest : Bytes) :
    braces (quotedText r.checksPieces rest) = 123 :: (braces r.gitUserShell ++ braces rest) := by
  simp +decide only [checksPieces, quotedText, Quoted.text, List.append_assoc, braces_sectionStart,
    braces_quote, braces_append_left, braces_boolText, braces_backend, nextInner]
  rw [braces_append]
  simp +decide only [braces_quote, braces_append_left]

theorem braces_disk (r : GitReport) (rest : Bytes) :
    braces (quotedText r.diskPieces rest) =
      123 :: (braces (r.repoPath ++ r.diskFree) ++ braces rest) := by
  simp +decide only [diskPieces, quotedText, Quoted.text, List.append_assoc, braces_sectionStart,
    braces_quote, braces_append_left]
  rw [braces_append, braces_append, List.append_assoc]
  simp +decide only [braces_quote, braces_append_left, braces_decimal, nextInner, List.append_assoc]
  rw [braces_append, braces_quote]

theorem braces_repositories (r : GitReport) (rest : Bytes) :
    braces (quotedText r.repositoriesPieces rest) =
      123 :: (braces r.repoPath ++ braces rest) := by
  simp +decide only [repositoriesPieces, quotedText, Quoted.text, List.append_assoc,
    braces_sectionStart, braces_quote, braces_append_left]
  rw [braces_append]
  simp +decide only [braces_quote, braces_append_left, braces_decimal, nextInner, List.append_assoc]

/-! The braces behind each section. -/

def checksRest (r : GitReport) : Bytes := 125 :: (r.noteText ++ [125])

def diskRest (r : GitReport) : Bytes := 125 :: 123 :: (r.gitUserShell ++ checksRest r)

def repositoriesRest (r : GitReport) : Bytes :=
  125 :: 123 :: ((r.repoPath ++ r.diskFree) ++ diskRest r)

theorem braces_closing (s : Bytes) : braces (125 :: s) = 125 :: braces s := rfl

theorem braces_opening (s : Bytes) : braces (123 :: s) = 123 :: braces s := rfl

theorem braces_afterChecks (r : GitReport) : braces r.afterChecks = braces (checksRest r) := by
  rw [afterChecks, braces_sectionClose, checksRest, braces_closing, fromStatus, notePieces, ending,
    noteText]
  refine congrArg (List.cons 125) ?_
  cases r.note with
  | none =>
      simp +decide only [quotedText, Quoted.text, braces_quote, braces_append_left,
        braces_severity, nextMember, List.append_assoc]
  | some note =>
      simp +decide only [quotedText, Quoted.text, braces_quote, braces_append_left,
        braces_severity, nextMember, List.append_assoc]
      rw [Option.getD_some, braces_append, braces_append]
      rfl

theorem braces_checksLast (r : GitReport) : braces r.checksLast = [] := by
  simp +decide only [checksLast, braces_append_left, braces_boolText]

theorem braces_repositoriesLast (r : GitReport) : braces r.repositoriesLast = [] := by
  simp +decide only [repositoriesLast, braces_append_left, braces_decimal]

theorem braces_afterDisk (r : GitReport) : braces r.afterDisk = braces (diskRest r) := by
  rw [afterDisk, braces_sectionClose, braces_quote, braces_append_left (by decide), braces_quote,
    fromChecks_eq, braces_append_left (by decide), braces_checks,
    braces_append_left (braces_checksLast r), braces_afterChecks, diskRest, braces_closing,
    braces_opening, braces_append]

theorem braces_afterRepositories (r : GitReport) :
    braces r.afterRepositories = braces (repositoriesRest r) := by
  have hline : braces (bytes "\n  ") = [] := by decide
  rw [afterRepositories, braces_sectionClose, braces_quote, braces_append_left (by decide),
    braces_quote, fromDisk_eq, braces_append_left (by decide), braces_disk,
    braces_append_left hline, braces_afterDisk, repositoriesRest, braces_closing,
    braces_opening, braces_append _ (diskRest r)]

/-! ## The checks -/

/-- As far as the shell of the user. -/
def checksOpen (r : GitReport) : Bytes :=
  quotedText (r.checksPieces.take 5) (bytes ": " ++ 34 :: r.gitUserShell)

theorem checks_eq (r : GitReport) (rest : Bytes) :
    quotedText r.checksPieces rest =
      checksOpen r ++ 34 :: (nextInner ++ marker (bytes "fcgiwrap_socket_exists") rest) :=
  quotedText_value (r.checksPieces.take 5) [(nextInner, .key (bytes "fcgiwrap_socket_exists"))]
    (bytes ": ") r.gitUserShell rest

theorem braces_checksOpen (r : GitReport) :
    braces (checksOpen r) = 123 :: braces r.gitUserShell := by
  simp +decide only [checksOpen, checksPieces, List.take_succ_cons, List.take_zero, quotedText,
    Quoted.text, List.append_assoc, braces_sectionStart, braces_quote, braces_append_left,
    braces_boolText, braces_backend, nextInner]

theorem braces_checksTail (r : GitReport) :
    braces (34 :: (nextInner ++ marker (bytes "fcgiwrap_socket_exists") r.checksLast)) = [] := by
  simp +decide only [nextInner, marker, braces_quote, braces_append_left, List.append_assoc,
    braces_checksLast]

theorem extractSection_checks {r : GitReport} (h : r.NoQuotes) :
    extractSection (bytes "checks") r.text =
      closed 123 125 (quotedText r.checksPieces (r.checksLast ++ r.afterChecks)) := by
  have hlocated : Located (bytes "checks") r.pieces r.fromChecks r.ending :=
    located h (by decide) rfl
  obtain ⟨s, hs⟩ : ∃ s, quotedText r.checksPieces (r.checksLast ++ r.afterChecks) = 123 :: s :=
    ⟨_, rfl⟩
  rw [text_eq, extractSection, hs]
  refine extract_located hlocated (by decide) ?_
  rw [fromChecks_eq, hs]

theorem checks_located {r : GitReport} (h : r.NoQuotes) (w : Bytes) {k : Bytes} (hk : IsName k)
    {l' : List (Bytes × Quoted)} (hlocate : locate k r.checksPieces = some l') :
    Located k r.checksPieces l' (r.checksLast ++ w) :=
  ⟨hk, rfl, plain_checksPieces h, hlocate⟩

theorem checks_iff {r : GitReport} (h : r.NoQuotes) {s : Bytes}
    (hs : s = extractSection (bytes "checks") r.text) :
    (findBool s (bytes "web_ui_reachable") = some r.webUiReachable ∧
      findString s (bytes "http_clone_available") = some r.httpClone.text ∧
      findBool s (bytes "git_user_exists") = some r.gitUserExists ∧
      findBool s (bytes "fcgiwrap_socket_exists") = some r.fcgiwrapSocketExists) ↔
      Closes r.gitUserShell (checksRest r) := by
  rw [extractSection_checks h] at hs
  constructor
  · rintro ⟨-, -, -, hlast⟩
    by_contra hopen
    have hlocated : Located (bytes "fcgiwrap_socket_exists") r.checksPieces []
        (r.checksLast ++ r.afterChecks) := checks_located h _ (by decide) rfl
    obtain ⟨a, b, hab, ha⟩ := closed_of_not_closes rfl (braces_checksOpen r)
      (braces_checksTail r) (braces_afterChecks r) hopen
    have hsplit : quotedText r.checksPieces (r.checksLast ++ r.afterChecks) =
        a ++ (b ++ (34 :: nextInner ++
          marker (bytes "fcgiwrap_socket_exists") (r.checksLast ++ r.afterChecks))) := by
      rw [checks_eq, hab, List.append_assoc, List.cons_append]
    have hsection : s = a := by
      rw [hs, checks_eq, ← ha, marker_append, ← List.append_assoc nextInner, ← List.cons_append]
    have hnone : fromFirst (marker (bytes "fcgiwrap_socket_exists") (bytes ":")) a = none :=
      fromFirst_before hlocated (List.prefix_append [58] _) hsplit
    rw [hsection, findBool, afterFirst, hnone] at hlast
    cases hlast
  · intro hcloses
    have hbraces : braces (quotedText r.checksPieces r.checksLast) =
        123 :: braces r.gitUserShell := by
      rw [braces_checks, braces_checksLast, List.append_nil]
    obtain ⟨w, hw⟩ := closed_of_closes rfl hbraces (braces_afterChecks r) hcloses
    rw [quotedText_rest, quotedText_rest] at hw
    rw [hs, hw]
    refine ⟨?_, ?_, ?_, ?_⟩
    · apply findBool_located (checks_located h w (by decide) rfl)
      rw [quotedText, List.append_assoc, List.append_assoc]
    · apply findString_located (checks_located h w (by decide) rfl) (quote_notMem_backend _)
      rw [quotedText, Quoted.text]
    · apply findBool_located (checks_located h w (by decide) rfl)
      rw [quotedText, List.append_assoc, List.append_assoc]
    · apply findBool_located (checks_located h w (by decide) rfl)
      rw [quotedText, checksLast, List.append_assoc, List.append_assoc]

/-! ## The disk -/

/-- As far as the free space. -/
def diskOpen (r : GitReport) : Bytes :=
  quotedText (r.diskPieces.take 4) (bytes ": " ++ 34 :: r.diskFree)

theorem disk_eq (r : GitReport) (rest : Bytes) :
    quotedText r.diskPieces rest = diskOpen r ++ 34 :: rest :=
  quotedText_value (r.diskPieces.take 4) [] (bytes ": ") r.diskFree rest

theorem braces_diskOpen (r : GitReport) :
    braces (diskOpen r) = 123 :: braces (r.repoPath ++ r.diskFree) := by
  have hwhole := braces_disk r []
  rw [disk_eq, braces_append] at hwhole
  simpa [braces] using hwhole

theorem extractSection_disk {r : GitReport} (h : r.NoQuotes) :
    extractSection (bytes "disk") r.text =
      closed 123 125 (quotedText r.diskPieces (bytes "\n  " ++ r.afterDisk)) := by
  have hlocated : Located (bytes "disk") r.pieces r.fromDisk r.ending :=
    located h (by decide) rfl
  obtain ⟨s, hs⟩ : ∃ s, quotedText r.diskPieces (bytes "\n  " ++ r.afterDisk) = 123 :: s :=
    ⟨_, rfl⟩
  rw [text_eq, extractSection, hs]
  refine extract_located hlocated (by decide) ?_
  rw [fromDisk_eq, hs]

theorem disk_located {r : GitReport} (h : r.NoQuotes) (w : Bytes) {k : Bytes} (hk : IsName k)
    {l' : List (Bytes × Quoted)} (hlocate : locate k r.diskPieces = some l') :
    Located k r.diskPieces l' (bytes "\n  " ++ w) :=
  ⟨hk, rfl, plain_diskPieces h, hlocate⟩

theorem disk_iff {r : GitReport} (h : r.NoQuotes) (hpct : r.diskUsedPct < 2 ^ 63) {s : Bytes}
    (hs : s = extractSection (bytes "disk") r.text) :
    (findNumber s (bytes "used_pct") = some (r.diskUsedPct : Int) ∧
      findString s (bytes "free") = some r.diskFree) ↔
      truncate (binary64 r.diskUsedPct) = r.diskUsedPct ∧
        Closes (r.repoPath ++ r.diskFree) (diskRest r) := by
  rw [extractSection_disk h] at hs
  by_cases hcloses : Closes (r.repoPath ++ r.diskFree) (diskRest r)
  · have hbraces : braces (quotedText r.diskPieces (bytes "\n  ")) =
        123 :: braces (r.repoPath ++ r.diskFree) := by
      have hline : braces (bytes "\n  ") = [] := by decide
      rw [braces_disk, hline, List.append_nil]
    obtain ⟨w, hw⟩ := closed_of_closes rfl hbraces (braces_afterDisk r) hcloses
    rw [quotedText_rest, quotedText_rest] at hw
    have hnumber : findNumber s (bytes "used_pct") = some (truncate (binary64 r.diskUsedPct)) := by
      rw [hs, hw]
      apply findNumber_located (disk_located h w (by decide) rfl) hpct
      · rw [quotedText, List.append_assoc, List.append_assoc]
      · rintro c ⟨⟩
        decide
    have hstring : findString s (bytes "free") = some r.diskFree := by
      rw [hs, hw]
      apply findString_located (disk_located h w (by decide) rfl) h.diskFree
      rw [quotedText, Quoted.text]
    rw [hnumber, Option.some_inj]
    exact and_congr_right fun _ => iff_of_true hstring hcloses
  · refine iff_of_false ?_ fun hboth => hcloses hboth.2
    rintro ⟨-, hstring⟩
    have hlocated : Located (bytes "free") r.diskPieces [(bytes ": ", .value r.diskFree)]
        (bytes "\n  " ++ r.afterDisk) := disk_located h _ (by decide) rfl
    have hline : braces (34 :: bytes "\n  ") = [] := by decide
    obtain ⟨a, b, hab, ha⟩ := closed_of_not_closes rfl (braces_diskOpen r) hline
      (braces_afterDisk r) hcloses
    have hsection : s = a := by rw [hs, disk_eq, ← ha, List.cons_append]
    have hnone : findString a (bytes "free") = none := by
      refine findString_before hlocated h.diskFree (t := bytes "\n  " ++ r.afterDisk) ?_ (b := b) ?_
      · rw [quotedText, Quoted.text, quotedText]
      · rw [disk_eq, hab, List.append_assoc]
    rw [hsection, hnone] at hstring
    cases hstring

/-! ## The repositories -/

/-- As far as the path. -/
def repositoriesOpen (r : GitReport) : Bytes :=
  quotedText (r.repositoriesPieces.take 1) (bytes ": " ++ 34 :: r.repoPath)

/-- From the count on. -/
def fromCount (r : GitReport) (rest : Bytes) : Bytes :=
  quotedText (r.repositoriesPieces.drop 3) rest

theorem repositories_eq (r : GitReport) (rest : Bytes) :
    quotedText r.repositoriesPieces rest =
      repositoriesOpen r ++ 34 :: (nextInner ++ marker (bytes "count") (fromCount r rest)) :=
  quotedText_value (r.repositoriesPieces.take 1) (r.repositoriesPieces.drop 2) (bytes ": ")
    r.repoPath rest

theorem braces_repositoriesOpen (r : GitReport) :
    braces (repositoriesOpen r) = 123 :: braces r.repoPath := by
  simp +decide only [repositoriesOpen, repositoriesPieces, List.take_succ_cons, List.take_zero,
    quotedText, Quoted.text, braces_sectionStart, braces_quote, braces_append_left]

theorem braces_repositoriesTail (r : GitReport) :
    braces (34 :: (nextInner ++ marker (bytes "count") (fromCount r r.repositoriesLast))) = [] := by
  simp +decide only [fromCount, repositoriesPieces, List.drop_succ_cons, List.drop_zero, quotedText,
    Quoted.text, nextInner, marker, braces_quote, braces_append_left, List.append_assoc,
    braces_decimal, braces_repositoriesLast]

theorem extractSection_repositories {r : GitReport} (h : r.NoQuotes) :
    extractSection (bytes "repositories") r.text =
      closed 123 125
        (quotedText r.repositoriesPieces (r.repositoriesLast ++ r.afterRepositories)) := by
  have hlocated : Located (bytes "repositories") r.pieces r.fromRepositories r.ending :=
    located h (by decide) rfl
  obtain ⟨s, hs⟩ : ∃ s, quotedText r.repositoriesPieces
      (r.repositoriesLast ++ r.afterRepositories) = 123 :: s := ⟨_, rfl⟩
  rw [text_eq, extractSection, hs]
  refine extract_located hlocated (by decide) ?_
  rw [fromRepositories_eq, hs]

theorem repositories_located {r : GitReport} (h : r.NoQuotes) (w : Bytes) {k : Bytes}
    (hk : IsName k) {l' : List (Bytes × Quoted)}
    (hlocate : locate k r.repositoriesPieces = some l') :
    Located k r.repositoriesPieces l' (r.repositoriesLast ++ w) :=
  ⟨hk, rfl, plain_repositoriesPieces h, hlocate⟩

theorem repositories_iff {r : GitReport} (h : r.NoQuotes) (hcount : r.repoCount < 2 ^ 63)
    (hsize : r.totalSizeMb < 2 ^ 53) {s : Bytes}
    (hs : s = extractSection (bytes "repositories") r.text) :
    (findNumber s (bytes "count") = some (r.repoCount : Int) ∧
      findNumber s (bytes "total_size_mb") = some (r.totalSizeMb : Int) ∧
      findString s (bytes "path") = some r.repoPath) ↔
      truncate (binary64 r.repoCount) = r.repoCount ∧ Closes r.repoPath (repositoriesRest r) := by
  rw [extractSection_repositories h] at hs
  by_cases hcloses : Closes r.repoPath (repositoriesRest r)
  · have hbraces : braces (quotedText r.repositoriesPieces r.repositoriesLast) =
        123 :: braces r.repoPath := by
      rw [braces_repositories, braces_repositoriesLast, List.append_nil]
    obtain ⟨w, hw⟩ := closed_of_closes rfl hbraces (braces_afterRepositories r) hcloses
    rw [quotedText_rest, quotedText_rest] at hw
    have hnumber : findNumber s (bytes "count") = some (truncate (binary64 r.repoCount)) := by
      rw [hs, hw]
      apply findNumber_located (repositories_located h w (by decide) rfl) hcount
      · rw [quotedText, List.append_assoc, List.append_assoc]
      · rintro c ⟨⟩
        decide
    have htotal : findNumber s (bytes "total_size_mb") = some (r.totalSizeMb : Int) := by
      have hexact : binary64 r.totalSizeMb = r.totalSizeMb := by
        have habs : |(r.totalSizeMb : Int)| < 2 ^ 53 := by
          rw [abs_of_nonneg (by omega)]
          exact_mod_cast hsize
        exact_mod_cast rounded_intCast habs
      have htruncate : truncate (r.totalSizeMb : ℚ) = r.totalSizeMb := by
        rw [truncate_of_nonneg (by positivity)]
        exact_mod_cast Int.floor_natCast (R := ℚ) r.totalSizeMb
      have hread : findNumber s (bytes "total_size_mb") =
          some (truncate (binary64 r.totalSizeMb)) := by
        rw [hs, hw]
        apply findNumber_located (repositories_located h w (by decide) rfl) (by omega)
        · rw [quotedText, repositoriesLast, List.append_assoc, List.append_assoc]
        · rintro c ⟨⟩
          decide
      rw [hread, hexact, htruncate]
    have hpath : findString s (bytes "path") = some r.repoPath := by
      rw [hs, hw]
      apply findString_located (repositories_located h w (by decide) rfl) h.repoPath
      rw [quotedText, Quoted.text]
    rw [hnumber, Option.some_inj]
    exact and_congr_right fun _ => iff_of_true ⟨htotal, hpath⟩ hcloses
  · refine iff_of_false ?_ fun hboth => hcloses hboth.2
    rintro ⟨hnumber, -⟩
    have hlocated : Located (bytes "count") r.repositoriesPieces (r.repositoriesPieces.drop 3)
        (r.repositoriesLast ++ r.afterRepositories) := repositories_located h _ (by decide) rfl
    obtain ⟨a, b, hab, ha⟩ := closed_of_not_closes rfl (braces_repositoriesOpen r)
      (braces_repositoriesTail r) (braces_afterRepositories r) hcloses
    have hsplit : quotedText r.repositoriesPieces (r.repositoriesLast ++ r.afterRepositories) =
        a ++ (b ++ (34 :: nextInner ++ marker (bytes "count")
          (fromCount r (r.repositoriesLast ++ r.afterRepositories)))) := by
      rw [repositories_eq, hab, List.append_assoc, List.cons_append]
    have hsection : s = a := by
      rw [hs, repositories_eq, ← ha, fromCount, ← quotedText_rest, marker_append,
        ← List.append_assoc nextInner, ← List.cons_append]
      rfl
    have hnone : fromFirst (marker (bytes "count") (bytes ": ")) a = none :=
      fromFirst_before hlocated (List.prefix_append (bytes ": ") _) hsplit
    rw [hsection, findNumber, afterFirst, hnone] at hnumber
    cases hnumber

/-! ## The notes -/

/-- No piece is longer than the text, or has a comma. -/
theorem mem_splitNotes {array item : Bytes} (h : item ∈ splitNotes array) :
    44 ∉ item ∧ item <:+: (array.drop 1).dropLast := by
  obtain ⟨piece, hpiece, rfl⟩ := List.mem_map.1 (List.mem_of_mem_filter h)
  have hsplit : piece ∈ ((array.drop 1).dropLast).splitOn 44 := by
    rw [splitServices] at hpiece
    split at hpiece
    · exact List.mem_of_mem_dropLast hpiece
    · exact hpiece
  obtain ⟨hcomma, hinfix⟩ := mem_splitOn hsplit
  have htrim : trimItem piece <:+: piece := by
    have hspace : ((piece.dropWhile isSpace).reverse.dropWhile isSpace).reverse <:+: piece := by
      have hback : ((piece.dropWhile isSpace).reverse.dropWhile isSpace).reverse <+:
          piece.dropWhile isSpace := by
        rw [← List.reverse_suffix, List.reverse_reverse]
        exact List.dropWhile_suffix _
      exact hback.isInfix.trans (List.dropWhile_suffix _).isInfix
    rw [trimItem]
    split
    · exact ((List.dropLast_prefix _).isInfix.trans (List.drop_suffix _ _).isInfix).trans hspace
    · exact hspace
  exact ⟨fun hmem => hcomma (htrim.subset hmem), htrim.trans hinfix⟩

theorem splitNotes_quoted {n : Bytes} (hn : n ≠ []) (hcomma : 44 ∉ n) :
    splitNotes (91 :: 34 :: (n ++ [34, 93])) = [n] := by
  have hcontent : (List.drop 1 (91 :: 34 :: (n ++ [34, 93]))).dropLast = 34 :: (n ++ [34]) := by
    have hlast : 34 :: (n ++ [34, 93]) = (34 :: (n ++ [34])) ++ [(93 : UInt8)] := by simp
    rw [List.drop_succ_cons, List.drop_zero, hlast, List.dropLast_concat]
  have hsplit : (34 :: (n ++ [34])).splitOn (44 : UInt8) = [34 :: (n ++ [34])] := by
    refine List.splitOn_eq_singleton ?_
    simp [hcomma]
  have htrim : trimItem (34 :: (n ++ [34])) = n := by
    have hspace : ¬ isSpace 34 = true := by decide
    have hback : (34 :: (n ++ [34])).reverse = 34 :: (n.reverse ++ [34]) := by simp
    have hforth : (34 :: (n.reverse ++ [34])).reverse = 34 :: (n ++ [34]) := by simp
    have hlast : (34 :: (n ++ [(34 : UInt8)])).getLast? = some 34 := by
      rw [← List.cons_append, List.getLast?_concat]
    rw [trimItem, List.dropWhile_cons_of_neg hspace, hback, List.dropWhile_cons_of_neg hspace,
      hforth]
    simp only [List.head?_cons, hlast, and_self, if_true, List.drop_succ_cons, List.drop_zero,
      List.dropLast_concat]
  rw [splitNotes, hcontent, splitServices, hsplit]
  simp [htrim, hn]

/-- A note comes back as it was if its brackets are closed in it, and it has no commas. -/
theorem splitNotes_iff {n t : Bytes} (hn : n ≠ []) (hquote : 34 ∉ n)
    (ht : depthIn 91 93 1 t = some 1) :
    splitNotes (closed 91 93 (91 :: 34 :: (n ++ 34 :: 93 :: t))) = [n] ↔
      44 ∉ n ∧ depthIn 91 93 1 n = some 1 := by
  have hopening : depthIn 91 93 0 (91 :: 34 :: n) = depthIn 91 93 1 n := by
    rw [depthIn_zero_cons, if_pos rfl]
    rfl
  constructor
  · intro h
    have hmem : n ∈ splitNotes (closed 91 93 (91 :: 34 :: (n ++ 34 :: 93 :: t))) := by
      rw [h]
      exact List.mem_singleton_self n
    obtain ⟨hcomma, hinfix⟩ := mem_splitNotes hmem
    refine ⟨hcomma, ?_⟩
    cases hdepth : depthIn 91 93 1 n with
    | none =>
        exfalso
        obtain ⟨a, b, hab, ha⟩ := closed_of_none (u := 91 :: 34 :: n) rfl
          (hopening.trans hdepth) (34 :: 93 :: t)
        have ha' : closed 91 93 (91 :: 34 :: (n ++ 34 :: 93 :: t)) = a := ha
        rw [ha'] at hinfix
        -- there is no room for the note but behind a quote
        have hbegins : (a.drop 1).dropLast <+: 34 :: n := by
          refine (List.dropLast_prefix _).trans ?_
          cases a with
          | nil => exact List.nil_prefix
          | cons c a =>
              rw [List.cons_append, List.cons.injEq] at hab
              rw [List.drop_succ_cons, List.drop_zero]
              exact ⟨b, hab.2.symm⟩
        have hlength : ((a.drop 1).dropLast).length ≤ n.length := by
          have hle := congrArg List.length hab
          rw [List.length_append, List.length_cons, List.length_cons] at hle
          rw [List.length_dropLast, List.length_drop]
          omega
        have heq : n = (a.drop 1).dropLast := hinfix.eq_of_length_le hlength
        rw [← heq] at hbegins
        cases n with
        | nil => exact hn rfl
        | cons c n =>
            rw [List.cons_prefix_cons] at hbegins
            exact hquote (hbegins.1 ▸ List.mem_cons_self)
    | some m =>
        obtain ⟨m, rfl⟩ := Nat.exists_eq_succ_of_ne_zero (depthIn_pos one_ne_zero hdepth)
        cases m with
        | zero => rfl
        | succ m =>
            exfalso
            have hwhole : depthIn 91 93 0 (91 :: 34 :: (n ++ 34 :: 93 :: t)) = some (m + 1) := by
              have hrest : depthIn 91 93 (m + 2) (34 :: 93 :: t) = some (m + 1) := by
                have hquoted : depthIn 91 93 (m + 2) (34 :: 93 :: t) =
                    depthIn 91 93 (m + 2) (93 :: t) := rfl
                rw [hquoted, depthIn_closing (by decide), if_neg (by omega), Nat.add_comm m 1,
                  depthIn_add ht]
              have hsplit : 91 :: 34 :: (n ++ 34 :: 93 :: t) =
                  (91 :: 34 :: n) ++ 34 :: 93 :: t := rfl
              rw [hsplit, depthIn_append, hopening, hdepth, Option.bind_some]
              exact hrest
            rw [closed_eq_nil hwhole] at h
            cases h
  · rintro ⟨hcomma, hdepth⟩
    have hclosed : closed 91 93 (91 :: 34 :: (n ++ 34 :: 93 :: t)) = 91 :: 34 :: (n ++ [34, 93]) := by
      have hinner : depthIn 91 93 1 (34 :: (n ++ [34])) = some 1 := by
        have hquoted : depthIn 91 93 1 (34 :: (n ++ [34])) = depthIn 91 93 1 (n ++ [34]) := rfl
        rw [hquoted, depthIn_append, hdepth]
        rfl
      have hsplit : 34 :: (n ++ 34 :: 93 :: t) = 34 :: (n ++ [34]) ++ 93 :: t := by simp
      rw [hsplit, closed, span_closing (by decide) hinner]
      simp
    rw [hclosed]
    exact splitNotes_quoted hn hcomma

theorem notes_none {r : GitReport} (h : r.NoQuotes) (hnote : r.note = none) :
    splitNotes (extractArray (bytes "notes") r.text) = [] := by
  have hlocated : Located (bytes "notes") r.pieces r.notePieces r.ending :=
    located h (by decide) rfl
  have htext : quotedText r.notePieces r.ending =
      bytes ": " ++ 91 :: (93 :: bytes "\n\x7d\n") := by
    rw [notePieces, ending, hnote]
    rfl
  rw [text_eq, extractArray, extract_located hlocated (by decide) htext]
  decide

theorem notes_some {r : GitReport} (h : r.NoQuotes) {n : Bytes} (hnote : r.note = some n)
    (hn : n ≠ []) :
    splitNotes (extractArray (bytes "notes") r.text) = [n] ↔
      44 ∉ n ∧ depthIn 91 93 1 n = some 1 := by
  have hlocated : Located (bytes "notes") r.pieces r.notePieces r.ending :=
    located h (by decide) rfl
  have htext : quotedText r.notePieces r.ending =
      bytes ": " ++ 91 :: (34 :: (n ++ 34 :: 93 :: bytes "\n\x7d\n")) := by
    rw [notePieces, ending, hnote]
    rfl
  rw [text_eq, extractArray, extract_located hlocated (by decide) htext]
  exact splitNotes_iff hn (h.note n hnote) (by decide)

/-! ## The other fields -/

theorem extractSection_services {r : GitReport} (h : r.NoQuotes) :
    extractSection (bytes "services") r.text = r.servicesObject := by
  have hlocated : Located (bytes "services") r.pieces r.fromServices r.ending :=
    located h (by decide) rfl
  have hne : r.servicesPieces ≠ [] := List.cons_ne_nil _ _
  have hobject : r.servicesObject = quotedText r.servicesPieces (bytes "\n  ") ++ [125] := by
    simp only [servicesObject, servicesPieces, member, inQuotes, sectionStart, nextInner, quotedText,
      Quoted.text, List.append_assoc, List.cons_append, List.nil_append]
    rfl
  obtain ⟨s, hs⟩ : ∃ s, quotedText r.servicesPieces (bytes "\n  ") = 123 :: s := ⟨_, rfl⟩
  have hdepth : depthIn 123 125 1 s = some 1 := by
    have hbraces : braces (quotedText r.servicesPieces (bytes "\n  ")) = 123 :: braces [] := by
      simp +decide only [servicesPieces, quotedText, Quoted.text, List.append_assoc,
        braces_sectionStart, braces_quote, braces_append_left, braces_unit, nextInner]
    have hzero := depthIn_section rfl hbraces
    rw [hs, depthIn_zero_cons, if_pos rfl] at hzero
    exact hzero
  have htext : ∃ v, quotedText r.fromServices r.ending = bytes ": " ++ 123 :: (s ++ 125 :: v) := by
    refine ⟨nextMember ++ 34 :: (bytes "repositories" ++ 34 ::
      quotedText r.fromRepositories r.ending), ?_⟩
    rw [fromServices, quotedText_append, quotedText_behind _ hne, ← List.cons_append, ← hs,
      quotedText_rest, quotedText, Quoted.text, List.append_assoc]
    rfl
  obtain ⟨v, hv⟩ := htext
  rw [text_eq, extractSection, extract_located hlocated (by decide) hv, closed,
    span_closing (by decide) hdepth, hobject, hs]
  rfl

theorem readTimestamp_text {r : GitReport} (h : r.NoQuotes) :
    readTimestamp r.text = some r.timestamp.toInt := by
  obtain ⟨l', hlocate⟩ : ∃ l', locate (bytes "timestamp") r.pieces =
      some ((bytes ": " ++ (decimal r.timestamp.toInt ++ nextMember), .key (bytes "git_server")) ::
        l') := ⟨_, rfl⟩
  have hafter := afterFirst_space (located h (by decide) hlocate)
    (t := decimal r.timestamp.toInt ++ (nextMember ++ 34 :: (bytes "git_server" ++ 34 ::
      quotedText l' r.ending))) (by rw [quotedText, List.append_assoc, List.append_assoc]; rfl)
  have hdigits : ∀ c ∈ decimal r.timestamp.toInt, (c ≠ 44 && c ≠ 125) = true := by
    intro c hc
    have hlow := lt_of_mem_decimal hc
    have hhigh := mem_decimal_lt hc
    have hcomma : c ≠ 44 := fun heq => absurd (heq ▸ hlow) (by decide)
    have hbrace : c ≠ 125 := fun heq => absurd (heq ▸ hhigh) (by decide)
    simp [hcomma, hbrace]
  have hread : stoll (decimal r.timestamp.toInt) = some r.timestamp.toInt :=
    parseInteger_decimal r.timestamp.le_toInt (by have := r.timestamp.toInt_lt; omega)
  rw [text_eq, readTimestamp, hafter]
  simp only
  rw [if_pos, List.takeWhile_append_of_pos hdigits]
  · have hnone : (nextMember ++ 34 :: (bytes "git_server" ++ 34 ::
        quotedText l' r.ending)).takeWhile (fun c => c ≠ 44 && c ≠ 125) = [] := rfl
    rw [hnone, List.append_nil, hread]
  · rw [List.any_append, Bool.or_eq_true]
    exact Or.inr rfl

theorem readString_host {r : GitReport} (h : r.NoQuotes) :
    readString (bytes "host") r.text = some r.host := by
  rw [text_eq]
  exact readString_located (located h (by decide) rfl) h.host rfl

theorem readString_status {r : GitReport} (h : r.NoQuotes) :
    readString (bytes "status") r.text = some r.status.text := by
  rw [text_eq]
  exact readString_located (located h (by decide) rfl) (quote_notMem_severity _) rfl

/-! ## Reports that are read back -/

theorem closes_iff {v rest : Bytes} {m : Nat} (hv : depthIn 123 125 1 v = some (m + 1)) :
    Closes v (125 :: rest) ↔ m = 0 ∨ depthIn 123 125 m rest = none := by
  rw [Closes, depthIn_append, hv, Option.bind_some, depthIn_closing (by decide)]
  split
  · next hm => simp [hm]
  · next hm => simp [hm]

/-- What a section leaves open must be closed at the end of the report. -/
theorem depthIn_next {v rest : Bytes} {m k : Nat} (hv : depthIn 123 125 1 v = some (m + 1)) :
    depthIn 123 125 k (123 :: (v ++ 125 :: rest)) = none ↔
      k + m = 0 ∨ depthIn 123 125 (k + m) rest = none := by
  have hopened : depthIn 123 125 (k + 1) v = some (k + m + 1) := by
    have hadd := depthIn_add hv k
    rwa [Nat.add_comm 1 k, Nat.add_right_comm, Nat.add_comm m k] at hadd
  rw [depthIn, countDelimiter, if_pos rfl, if_neg (by omega), depthIn_append, hopened,
    Option.bind_some, depthIn_closing (by decide)]
  split
  · next hm => exact iff_of_true rfl (Or.inl hm)
  · next hm => exact (or_iff_right hm).symm

end GitDoctorBot

/-- What a status is read as. -/
def Severity.runStatus : Severity → RunStatus
  | .ok => .success
  | .warning => .warning
  | .critical => .critical

namespace GitReport

/-- The reader finds in a report what was put there. -/
structure ReadBack (r : GitReport) (d : ReportData) : Prop where
  status : d.status = r.status.runStatus
  host : d.host = r.host
  timestamp : d.timestamp = r.timestamp.toInt
  webUiReachable : d.metrics.webUiReachable = some (boolText r.webUiReachable)
  httpCloneAvailable : d.metrics.httpCloneAvailable = some r.httpClone.text
  gitUserExists : d.metrics.gitUserExists = some (boolText r.gitUserExists)
  fcgiwrapSocketExists : d.metrics.fcgiwrapSocketExists = some (boolText r.fcgiwrapSocketExists)
  repoCount : d.metrics.repoCount = some (decimal r.repoCount)
  totalSizeMb : d.metrics.totalSizeMb = some (decimal r.totalSizeMb)
  repoPath : d.metrics.repoPath = some r.repoPath
  diskUsedPct : d.metrics.diskUsedPct = some (decimal r.diskUsedPct)
  diskFree : d.metrics.diskFree = some r.diskFree
  services : d.metrics.servicesJson = some r.servicesObject
  notes : d.notes = r.note.toList

/-- The numbers are exact as a `double`. No path closes the braces of its section, and those that the
values leave open are closed at the end of the report, by the note if not by the last brace. A note
has no commas, and its brackets are closed. -/
structure Readable (r : GitReport) : Prop where
  count : truncate (binary64 r.repoCount) = r.repoCount
  usedPct : truncate (binary64 r.diskUsedPct) = r.diskUsedPct
  braces : ∃ a b c, depthIn 123 125 1 r.repoPath = some (a + 1) ∧
    depthIn 123 125 1 (r.repoPath ++ r.diskFree) = some (b + 1) ∧
    depthIn 123 125 1 r.gitUserShell = some (c + 1) ∧
    (a + b + c = 0 ∨ depthIn 123 125 (a + b + c) (r.noteText ++ [125]) = none)
  note : ∀ note ∈ r.note, 44 ∉ note ∧ depthIn 91 93 1 note = some 1

end GitReport

namespace GitDoctorBot

open GitReport

/-- The sections end where they should if what is left open in them is closed in the end. -/
theorem all_close_iff (r : GitReport) :
    (Closes r.gitUserShell (checksRest r) ∧ Closes (r.repoPath ++ r.diskFree) (diskRest r) ∧
      Closes r.repoPath (repositoriesRest r)) ↔
      ∃ a b c, depthIn 123 125 1 r.repoPath = some (a + 1) ∧
        depthIn 123 125 1 (r.repoPath ++ r.diskFree) = some (b + 1) ∧
        depthIn 123 125 1 r.gitUserShell = some (c + 1) ∧
        (a + b + c = 0 ∨ depthIn 123 125 (a + b + c) (r.noteText ++ [125]) = none) := by
  have hstays : ∀ {v rest : Bytes}, Closes v rest → ∃ m, depthIn 123 125 1 v = some (m + 1) := by
    intro v rest hcloses
    obtain ⟨m, hm⟩ := Option.ne_none_iff_exists'.1 hcloses.1
    obtain ⟨m, rfl⟩ := Nat.exists_eq_succ_of_ne_zero (depthIn_pos one_ne_zero hm)
    exact ⟨m, hm⟩
  have hsections : ∀ {a b c : Nat}, depthIn 123 125 1 r.repoPath = some (a + 1) →
      depthIn 123 125 1 (r.repoPath ++ r.diskFree) = some (b + 1) →
      depthIn 123 125 1 r.gitUserShell = some (c + 1) →
      ((Closes r.gitUserShell (checksRest r) ∧ Closes (r.repoPath ++ r.diskFree) (diskRest r) ∧
        Closes r.repoPath (repositoriesRest r)) ↔
        a + b + c = 0 ∨ depthIn 123 125 (a + b + c) (r.noteText ++ [125]) = none) := by
    intro a b c ha hb hc
    have hfewer : ∀ {k : Nat}, k ≤ a + b + c →
        depthIn 123 125 (a + b + c) (r.noteText ++ [125]) = none →
        depthIn 123 125 k (r.noteText ++ [125]) = none := fun hk h => depthIn_eq_none_of_le h hk
    have hdisk : depthIn 123 125 b (123 :: (r.gitUserShell ++ checksRest r)) = none ↔
        b + c = 0 ∨ depthIn 123 125 (b + c) (r.noteText ++ [125]) = none := depthIn_next hc
    have hrepositories : depthIn 123 125 a (123 :: ((r.repoPath ++ r.diskFree) ++ diskRest r)) =
        none ↔ a + b = 0 ∨ a + b + c = 0 ∨
          depthIn 123 125 (a + b + c) (r.noteText ++ [125]) = none := by
      rw [diskRest, depthIn_next hb]
      exact or_congr_right (depthIn_next hc)
    have hshell : Closes r.gitUserShell (checksRest r) ↔
        c = 0 ∨ depthIn 123 125 c (r.noteText ++ [125]) = none := closes_iff hc
    have hfree : Closes (r.repoPath ++ r.diskFree) (diskRest r) ↔
        b = 0 ∨ depthIn 123 125 b (123 :: (r.gitUserShell ++ checksRest r)) = none := closes_iff hb
    have hpath : Closes r.repoPath (repositoriesRest r) ↔ a = 0 ∨
        depthIn 123 125 a (123 :: ((r.repoPath ++ r.diskFree) ++ diskRest r)) = none :=
      closes_iff ha
    rw [hshell, hfree, hdisk, hpath, hrepositories]
    constructor
    · rintro ⟨hchecks, hdisk, hrepositories⟩
      rcases hrepositories with ha | hab | hall | hall
      · subst ha
        rw [Nat.zero_add]
        rcases hdisk with hb | hbc | hbc
        · subst hb
          rwa [Nat.zero_add]
        · exact Or.inl hbc
        · exact Or.inr hbc
      · obtain ⟨rfl, rfl⟩ : a = 0 ∧ b = 0 := by omega
        rwa [Nat.zero_add]
      · exact Or.inl hall
      · exact Or.inr hall
    · rintro (hzero | hnone)
      · obtain ⟨rfl, rfl, rfl⟩ : a = 0 ∧ b = 0 ∧ c = 0 := by omega
        exact ⟨Or.inl rfl, Or.inl rfl, Or.inl rfl⟩
      · exact ⟨Or.inr (hfewer (by omega) hnone), Or.inr (Or.inr (hfewer (by omega) hnone)),
          Or.inr (Or.inr (Or.inr hnone))⟩
  constructor
  · intro hall
    obtain ⟨a, ha⟩ := hstays hall.2.2
    obtain ⟨b, hb⟩ := hstays hall.2.1
    obtain ⟨c, hc⟩ := hstays hall.1
    exact ⟨a, b, c, ha, hb, hc, (hsections ha hb hc).1 hall⟩
  · rintro ⟨a, b, c, ha, hb, hc, hend⟩
    exact (hsections ha hb hc).2 hend

theorem stringToStatus_text (s : Severity) : stringToStatus s.text = s.runStatus := by
  cases s <;> rfl

theorem map_decimal_eq {o : Option Int} {n : Nat} :
    o.map decimal = some (decimal n) ↔ o = some (n : Int) := by
  cases o with
  | none => simp
  | some m => simp [decimal_injective.eq_iff]

theorem boolMetric_eq {o : Option Bool} {b : Bool} :
    boolMetric o = some (boolText b) ↔ o = some b := by
  cases o with
  | none => simp [boolMetric]
  | some c => cases b <;> cases c <;> decide

/-- The notes come back if each is read as it is. -/
theorem notes_iff {r : GitReport} (h : r.NoQuotes) (hempty : r.note ≠ some []) :
    splitNotes (extractArray (bytes "notes") r.text) = r.note.toList ↔
      ∀ note ∈ r.note, 44 ∉ note ∧ depthIn 91 93 1 note = some 1 := by
  cases hnote : r.note with
  | none => simp [notes_none h hnote]
  | some note =>
      have hne : note ≠ [] := fun hnil => hempty (by rw [hnote, hnil])
      rw [Option.toList_some, notes_some h hnote hne]
      simp

/-- What is found in a report, whatever is read of it. -/
theorem parseReport_text {r : GitReport} (h : r.NoQuotes) :
    parseReport r.text = some
      { host := r.host
        timestamp := r.timestamp.toInt
        metrics := readMetrics r.text
        status := r.status.runStatus
        notes := splitNotes (extractArray (bytes "notes") r.text)
        rawJson := r.text } := by
  rw [parseReport, readTimestamp_text h, Option.map_some, readString_host h, readString_status h,
    Option.getD_some, Option.map_some, Option.getD_some, stringToStatus_text]

theorem parseReport_iff {r : GitReport} (h : r.NoQuotes) (hcount : r.repoCount < 2 ^ 63)
    (hsize : r.totalSizeMb < 2 ^ 53) (hpct : r.diskUsedPct < 2 ^ 63) (hempty : r.note ≠ some []) :
    (∃ d, parseReport r.text = some d ∧ r.ReadBack d) ↔ r.Readable := by
  have hchecks := checks_iff h rfl
  have hdisk := disk_iff h hpct rfl
  have hrepositories := repositories_iff h hcount hsize rfl
  have hservices : r.servicesObject ≠ [] := List.cons_ne_nil _ _
  rw [parseReport_text h]
  constructor
  · rintro ⟨d, hd, hback⟩
    rw [Option.some_inj] at hd
    subst hd
    obtain ⟨-, -, -, hweb, hclone, huser, hsocket, hcountRead, hsizeRead, hpathRead, hpctRead,
      hfreeRead, -, hnotes⟩ := hback
    simp only [readMetrics, boolMetric_eq] at hweb hclone huser hsocket
    simp only [readMetrics, map_decimal_eq] at hcountRead hsizeRead hpathRead hpctRead hfreeRead
    simp only [notes_iff h hempty] at hnotes
    obtain ⟨hcountExact, hpath⟩ := hrepositories.1 ⟨hcountRead, hsizeRead, hpathRead⟩
    obtain ⟨hpctExact, hfree⟩ := hdisk.1 ⟨hpctRead, hfreeRead⟩
    have hshell := hchecks.1 ⟨hweb, hclone, huser, hsocket⟩
    exact ⟨hcountExact, hpctExact, (all_close_iff r).1 ⟨hshell, hfree, hpath⟩, hnotes⟩
  · intro hreadable
    obtain ⟨hshell, hfree, hpath⟩ := (all_close_iff r).2 hreadable.braces
    obtain ⟨hcountRead, hsizeRead, hpathRead⟩ := hrepositories.2 ⟨hreadable.count, hpath⟩
    obtain ⟨hpctRead, hfreeRead⟩ := hdisk.2 ⟨hreadable.usedPct, hfree⟩
    obtain ⟨hweb, hclone, huser, hsocket⟩ := hchecks.2 hshell
    refine ⟨_, rfl, ?_⟩
    constructor <;> simp only [readMetrics, hweb, hclone, huser, hsocket, hcountRead, hsizeRead,
      hpathRead, hpctRead, hfreeRead, extractSection_services h, if_neg hservices, boolMetric,
      Option.map_some, (notes_iff h hempty).2 hreadable.note]

/-! ## The reports of the script -/

theorem note_ne_nil (bot : GitDoctorBot) (diskWarn diskCrit : Int) (g : GitReadings) :
    (bot.runScript diskWarn diskCrit g).note ≠ some [] := by
  rw [runScript]
  simp only [overallStatus]
  split_ifs <;> exact fun h => by cases h

theorem totalSizeMb_lt (bot : GitDoctorBot) (diskWarn diskCrit : Int) (g : GitReadings) :
    (bot.runScript diskWarn diskCrit g).totalSizeMb < 2 ^ 53 := by
  rw [runScript]
  simp only
  cases g.directory with
  | none => exact Nat.two_pow_pos 53
  | some d =>
      have hlt := d.sizeBytes_lt
      simp only
      split
      · exact Nat.two_pow_pos 53
      · omega

/-- A report is read back if and only if its values close what they open where they should. -/
theorem report_read_iff (bot : GitDoctorBot) (diskWarn diskCrit : Int) (g : GitReadings)
    (h : (bot.runScript diskWarn diskCrit g).NoQuotes) :
    (∃ d, parseReport (bot.runScript diskWarn diskCrit g).text = some d ∧
      (bot.runScript diskWarn diskCrit g).ReadBack d) ↔
      (bot.runScript diskWarn diskCrit g).Readable := by
  have hcount : (bot.runScript diskWarn diskCrit g).repoCount < 2 ^ 63 := by
    rw [runScript]
    cases g.directory with
    | none => exact Nat.two_pow_pos 63
    | some d => exact d.repoCount_lt
  have hpct : (bot.runScript diskWarn diskCrit g).diskUsedPct < 2 ^ 63 := by
    rw [runScript]
    cases g.directory with
    | none => exact Nat.two_pow_pos 63
    | some d => exact d.diskUsedPct_lt
  exact parseReport_iff h hcount (totalSizeMb_lt bot diskWarn diskCrit g) hpct
    (note_ne_nil bot diskWarn diskCrit g)

/-- A server without its configuration file. -/
def unconfigured : GitReadings where
  hostname := bytes "git1"
  timestamp := 1700000000
  server := some (.cgit (bytes "1.2.3"))
  nginx := .running
  fcgiwrap := .running
  directory := none
  configExists := false
  configReadable := false
  webUiReachable := true
  httpClone := .available
  gitUserShell := some (bytes "/bin/bash")
  fcgiwrapSocket := true

/-- The file has a comma in its name. -/
def commaBot : GitDoctorBot where
  configPath := bytes "/etc/cgit,rc"

theorem noQuotes_unconfigured : (commaBot.runScript 80 90 unconfigured).NoQuotes where
  host := by decide
  serverType := by decide
  version := by decide
  configPath := by decide
  repoPath := by decide
  diskFree := by decide
  gitUserShell := by decide
  note := by decide

theorem report_read_iff_comma :
    (∃ d, parseReport (commaBot.runScript 80 90 unconfigured).text = some d ∧
      (commaBot.runScript 80 90 unconfigured).ReadBack d) ↔
      (commaBot.runScript 80 90 unconfigured).Readable :=
  report_read_iff commaBot 80 90 unconfigured noQuotes_unconfigured

/-- The one note of a report comes back in two pieces. -/
theorem comma_splits_note :
    (commaBot.runScript 80 90 unconfigured).NoQuotes ∧
      (commaBot.runScript 80 90 unconfigured).note =
        some (bytes "Config file not found: /etc/cgit,rc") ∧
      ∀ d, parseReport (commaBot.runScript 80 90 unconfigured).text = some d →
        ¬ (commaBot.runScript 80 90 unconfigured).ReadBack d := by
  have hnote : (commaBot.runScript 80 90 unconfigured).note =
      some (bytes "Config file not found: /etc/cgit,rc") := by decide
  refine ⟨noQuotes_unconfigured, hnote, fun d hd hback => ?_⟩
  have hread := (parseReport_iff noQuotes_unconfigured (by decide) (by decide) (by decide)
    (note_ne_nil commaBot 80 90 unconfigured)).1 ⟨d, hd, hback⟩
  exact (hread.note _ hnote).1 (by decide)

end GitDoctorBot

end Nazg.Bot

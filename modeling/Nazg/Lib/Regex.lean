import Nazg.Lib.Bytes

/-!
# Regular expressions

Expressions with greedy repetition, as a backtracking matcher reads them. At a place in a
text an expression can match in several ways, which are tried in order; `rests` lists what
each leaves of the text, and the match is the first. A search tries the places from left to
right, and `replaceAll` goes on behind each match.

The expressions here match no empty text.
-/

namespace Nazg.Lib

inductive Regex where
  /-- One character of a class. -/
  | one (p : UInt8 → Bool)
  /-- `+` of a class. -/
  | many (p : UInt8 → Bool)
  | seq (a b : Regex)
  | alt (a b : Regex)
  /-- `?`, where trying comes before leaving out. -/
  | opt (a : Regex)

namespace Regex

/-- The longest run first. -/
def manyRests (p : UInt8 → Bool) : Bytes → List Bytes
  | [] => []
  | c :: s => if p c then manyRests p s ++ [s] else []

/-- What the matches of an expression at the beginning of a text leave of it. -/
def rests : Regex → Bytes → List Bytes
  | one _, [] => []
  | one p, c :: s => if p c then [s] else []
  | many p, s => manyRests p s
  | seq a b, s => (rests a s).flatMap (rests b)
  | alt a b, s => rests a s ++ rests b s
  | opt a, s => rests a s ++ [s]

/-- The match at the beginning of a text. -/
def matchAt (r : Regex) (s : Bytes) : Option Bytes := (r.rests s).head?

/-- A character. -/
def char (c : UInt8) : Regex := one fun d => d = c

/-- One after the other. -/
def sequence (r : Regex) : List Regex → Regex
  | [] => r
  | r' :: rs => seq r (sequence r' rs)

/-- `regex_replace`: `inside` counts the characters of the last match still to come. -/
def replaceFrom (r : Regex) (replacement : Bytes) : Nat → Bytes → Bytes
  | _, [] => []
  | inside + 1, _ :: s => replaceFrom r replacement inside s
  | 0, c :: s =>
      match r.matchAt (c :: s) with
      | some rest => replacement ++ replaceFrom r replacement (s.length - rest.length) s
      | none => c :: replaceFrom r replacement 0 s

def replaceAll (r : Regex) (replacement s : Bytes) : Bytes := replaceFrom r replacement 0 s

/-- `regex_search`, for whether there is a match. -/
def isFoundIn (r : Regex) : Bytes → Bool
  | [] => (r.matchAt []).isSome
  | c :: s => (r.matchAt (c :: s)).isSome || isFoundIn r s

end Regex

end Nazg.Lib

/-!
## Captures

An expression in parts, for telling what each part of it matched. A part is an expression or
a lazy run, which is tried from the shortest on. A search takes the leftmost place where the
parts match one after the other and, of the ways to match there, the first.

What a match is made of (`Matches`, `mem_pieces`) is enough to see that a text has none;
which match is the first is read off part by part (`matchAt_cons`).
-/

namespace Nazg.Lib

namespace Regex

/-- A given text, which is not empty. -/
def text (c : UInt8) (s : Bytes) : Regex := sequence (char c) (s.map char)

/-- The texts of an expression. -/
def Matches : Regex → Bytes → Prop
  | one p, u => ∃ c, u = [c] ∧ p c = true
  | many p, u => u ≠ [] ∧ ∀ c ∈ u, p c = true
  | seq a b, u => ∃ v w, u = v ++ w ∧ Matches a v ∧ Matches b w
  | alt a b, u => Matches a u ∨ Matches b u
  | opt a, u => u = [] ∨ Matches a u

theorem rests_char (c : UInt8) (s : Bytes) : (char c).rests (c :: s) = [s] := by
  rw [char, rests, if_pos (decide_eq_true rfl)]

theorem rests_text (c : UInt8) (s rest : Bytes) : (text c s).rests (c :: s ++ rest) = [rest] := by
  rw [text]
  induction s generalizing c with
  | nil => exact rests_char c rest
  | cons d s ih =>
      rw [List.map_cons, sequence, rests, List.cons_append, rests_char, List.flatMap_singleton, ih]

theorem matches_char {c : UInt8} {u : Bytes} (h : (char c).Matches u) : u = [c] := by
  obtain ⟨d, rfl, hd⟩ := h
  rw [of_decide_eq_true hd]

theorem matches_text {c : UInt8} {s u : Bytes} (h : (text c s).Matches u) : u = c :: s := by
  rw [text] at h
  induction s generalizing c u with
  | nil => exact matches_char h
  | cons d s ih =>
      obtain ⟨v, w, rfl, hv, hw⟩ := h
      rw [matches_char hv, ih hw]
      rfl

theorem mem_manyRests {p : UInt8 → Bool} {s t : Bytes} (h : t ∈ manyRests p s) :
    ∃ u, s = u ++ t ∧ u ≠ [] ∧ ∀ c ∈ u, p c = true := by
  induction s with
  | nil => cases h
  | cons c s ih =>
      rw [manyRests] at h
      split at h
      · rename_i hc
        obtain h | h := List.mem_append.1 h
        · obtain ⟨u, rfl, -, hall⟩ := ih h
          refine ⟨c :: u, rfl, List.cons_ne_nil c u, ?_⟩
          intro d hd
          obtain rfl | hd := List.mem_cons.1 hd
          · exact hc
          · exact hall d hd
        · obtain rfl := List.mem_singleton.1 h
          exact ⟨[c], rfl, List.cons_ne_nil c [], by simpa using hc⟩
      · cases h

theorem mem_rests {r : Regex} {s t : Bytes} (h : t ∈ r.rests s) :
    ∃ u, s = u ++ t ∧ r.Matches u := by
  induction r generalizing s t with
  | one p =>
      cases s with
      | nil => cases h
      | cons c s =>
          rw [rests] at h
          split at h
          · rename_i hc
            obtain rfl := List.mem_singleton.1 h
            exact ⟨[c], rfl, c, rfl, hc⟩
          · cases h
  | many p =>
      obtain ⟨u, hs, hne, hall⟩ := mem_manyRests h
      exact ⟨u, hs, hne, hall⟩
  | seq a b iha ihb =>
      obtain ⟨m, hm, ht⟩ := List.mem_flatMap.1 h
      obtain ⟨v, rfl, hv⟩ := iha hm
      obtain ⟨w, rfl, hw⟩ := ihb ht
      exact ⟨v ++ w, (List.append_assoc ..).symm, v, w, rfl, hv, hw⟩
  | alt a b iha ihb =>
      obtain h | h := List.mem_append.1 h
      · obtain ⟨u, hs, hu⟩ := iha h
        exact ⟨u, hs, Or.inl hu⟩
      · obtain ⟨u, hs, hu⟩ := ihb h
        exact ⟨u, hs, Or.inr hu⟩
  | opt a ih =>
      obtain h | h := List.mem_append.1 h
      · obtain ⟨u, hs, hu⟩ := ih h
        exact ⟨u, hs, Or.inr hu⟩
      · obtain rfl := List.mem_singleton.1 h
        exact ⟨[], rfl, Or.inl rfl⟩

end Regex

inductive Part where
  | regex (r : Regex)
  /-- `*?` of a class. -/
  | lazy (p : UInt8 → Bool)

namespace Part

/-- The shortest run first. -/
def lazyRests (p : UInt8 → Bool) : Bytes → List Bytes
  | [] => [[]]
  | c :: s => (c :: s) :: if p c then lazyRests p s else []

def rests : Part → Bytes → List Bytes
  | regex r, s => r.rests s
  | lazy p, s => lazyRests p s

def Matches : Part → Bytes → Prop
  | regex r, u => r.Matches u
  | lazy p, u => ∀ c ∈ u, p c = true

theorem mem_lazyRests {p : UInt8 → Bool} {s t : Bytes} (h : t ∈ lazyRests p s) :
    ∃ u, s = u ++ t ∧ ∀ c ∈ u, p c = true := by
  induction s with
  | nil =>
      obtain rfl := List.mem_singleton.1 h
      exact ⟨[], rfl, List.forall_mem_nil _⟩
  | cons c s ih =>
      obtain rfl | h := List.mem_cons.1 h
      · exact ⟨[], rfl, List.forall_mem_nil _⟩
      · split at h
        · rename_i hc
          obtain ⟨u, rfl, hall⟩ := ih h
          exact ⟨c :: u, rfl, List.forall_mem_cons.2 ⟨hc, hall⟩⟩
        · cases h

theorem mem_rests {i : Part} {s t : Bytes} (h : t ∈ i.rests s) :
    ∃ u, s = u ++ t ∧ i.Matches u := by
  cases i with
  | regex r => exact Regex.mem_rests h
  | lazy p => exact mem_lazyRests h

end Part

namespace Capture

/-- What the parts match, for each way to match them at the beginning of a text. -/
def pieces : List Part → Bytes → List (List Bytes)
  | [], _ => [[]]
  | i :: is, s =>
      (i.rests s).flatMap fun rest =>
        (pieces is rest).map fun ps => s.take (s.length - rest.length) :: ps

def matchAt (is : List Part) (s : Bytes) : Option (List Bytes) := (pieces is s).head?

/-- `regex_search`. -/
def search (is : List Part) : Bytes → Option (List Bytes)
  | [] => matchAt is []
  | c :: s => (matchAt is (c :: s)).or (search is s)

/-! ## What a match is made of -/

theorem mem_pieces {is : List Part} {s : Bytes} {ps : List Bytes} (h : ps ∈ pieces is s) :
    ∃ t, s = ps.flatten ++ t ∧ List.Forall₂ Part.Matches is ps := by
  induction is generalizing s ps with
  | nil =>
      obtain rfl := List.mem_singleton.1 h
      exact ⟨s, rfl, List.Forall₂.nil⟩
  | cons i is ih =>
      obtain ⟨rest, hrest, h⟩ := List.mem_flatMap.1 h
      obtain ⟨qs, hqs, rfl⟩ := List.mem_map.1 h
      obtain ⟨u, rfl, hu⟩ := Part.mem_rests hrest
      obtain ⟨t, rfl, hall⟩ := ih hqs
      have htake : (u ++ (qs.flatten ++ t)).take
          ((u ++ (qs.flatten ++ t)).length - (qs.flatten ++ t).length) = u := by
        rw [List.length_append, Nat.add_sub_cancel, List.take_left]
      rw [htake]
      exact ⟨t, by rw [List.flatten_cons, List.append_assoc], List.Forall₂.cons hu hall⟩

theorem matchAt_spec {is : List Part} {s : Bytes} {ps : List Bytes}
    (h : matchAt is s = some ps) : ∃ t, s = ps.flatten ++ t ∧ List.Forall₂ Part.Matches is ps :=
  mem_pieces (List.mem_of_head? h)

theorem search_spec {is : List Part} {s : Bytes} {ps : List Bytes}
    (h : search is s = some ps) :
    ∃ b t, s = b ++ (ps.flatten ++ t) ∧ List.Forall₂ Part.Matches is ps := by
  induction s with
  | nil =>
      obtain ⟨t, hs, hall⟩ := matchAt_spec h
      exact ⟨[], t, hs, hall⟩
  | cons c s ih =>
      rw [search] at h
      cases hm : matchAt is (c :: s) with
      | some qs =>
          rw [hm, Option.some_or] at h
          obtain rfl := Option.some.inj h
          obtain ⟨t, hs, hall⟩ := matchAt_spec hm
          exact ⟨[], t, hs, hall⟩
      | none =>
          rw [hm, Option.none_or] at h
          obtain ⟨b, t, hs, hall⟩ := ih h
          exact ⟨c :: b, t, by rw [hs, List.cons_append], hall⟩

/-! ## Which match is the first -/

/-- In front of `rest`, the first way to match a part is to take `u`. -/
def First (i : Part) (u rest : Bytes) : Prop := (i.rests (u ++ rest)).head? = some rest

theorem matchAt_cons {i : Part} {is : List Part} {u rest : Bytes} {ps : List Bytes}
    (hi : First i u rest) (h : matchAt is rest = some ps) :
    matchAt (i :: is) (u ++ rest) = some (u :: ps) := by
  obtain ⟨others, hrests⟩ := List.head?_eq_some_iff.1 hi
  obtain ⟨more, hpieces⟩ := List.head?_eq_some_iff.1 h
  rw [matchAt, pieces, hrests, List.flatMap_cons, hpieces, List.map_cons, List.cons_append,
    List.head?_cons, List.length_append, Nat.add_sub_cancel, List.take_left]

theorem first_text (c : UInt8) (s rest : Bytes) : First (.regex (.text c s)) (c :: s) rest := by
  show ((Regex.text c s).rests (c :: s ++ rest)).head? = some rest
  rw [Regex.rests_text, List.head?_cons]

/-- A text that does not begin with a character of the class. -/
def Stops (p : UInt8 → Bool) (rest : Bytes) : Prop := ∀ c, rest.head? = some c → p c = false

theorem stops_cons {p : UInt8 → Bool} {c : UInt8} {s : Bytes} (h : p c = false) :
    Stops p (c :: s) := by
  intro d hd
  rwa [← Option.some.inj hd]

theorem manyRests_of_stops {p : UInt8 → Bool} {rest : Bytes} (h : Stops p rest) :
    Regex.manyRests p rest = [] := by
  cases rest with
  | nil => rfl
  | cons c rest => rw [Regex.manyRests, h c rfl, if_neg Bool.false_ne_true]

theorem first_many {p : UInt8 → Bool} {u rest : Bytes} (hne : u ≠ [])
    (hall : ∀ c ∈ u, p c = true) (hrest : Stops p rest) :
    First (.regex (.many p)) u rest := by
  show (Regex.manyRests p (u ++ rest)).head? = some rest
  induction u with
  | nil => exact absurd rfl hne
  | cons c u ih =>
      obtain ⟨hc, hall⟩ := List.forall_mem_cons.1 hall
      rw [List.cons_append, Regex.manyRests, if_pos hc]
      by_cases hu : u = []
      · subst hu
        rw [List.nil_append, manyRests_of_stops hrest, List.nil_append, List.head?_cons]
      · rw [List.head?_append, ih hu hall, Option.some_or]

theorem first_opt {r : Regex} {u rest : Bytes} (h : First (.regex r) u rest) :
    First (.regex (.opt r)) u rest := by
  show (r.rests (u ++ rest) ++ [u ++ rest]).head? = some rest
  have hr : (r.rests (u ++ rest)).head? = some rest := h
  rw [List.head?_append, hr, Option.some_or]

theorem first_opt_nil {r : Regex} {rest : Bytes} (h : r.rests rest = []) :
    First (.regex (.opt r)) [] rest := by
  show (r.rests rest ++ [rest]).head? = some rest
  rw [h, List.nil_append, List.head?_cons]

/-- An expression that begins with a given text is not found where its first character is
missing. -/
theorem search_skip {c : UInt8} {t : Bytes} {is : List Part} {b : Bytes} (hb : c ∉ b)
    (s : Bytes) :
    search (.regex (.text c t) :: is) (b ++ s) = search (.regex (.text c t) :: is) s := by
  induction b with
  | nil => rfl
  | cons d b ih =>
      rw [List.mem_cons, not_or] at hb
      have hnone : matchAt (.regex (.text c t) :: is) (d :: (b ++ s)) = none := by
        rw [Option.eq_none_iff_forall_ne_some]
        intro ps hps
        obtain ⟨u, hu, hall⟩ := matchAt_spec hps
        cases hall with
        | cons h _ =>
            rw [Regex.matches_text h, List.flatten_cons, List.cons_append, List.cons_append] at hu
            exact hb.1 (List.cons.inj hu).1.symm
      rw [List.cons_append, search, hnone, Option.none_or, ih hb.2]

theorem search_of_matchAt {is : List Part} {s : Bytes} {ps : List Bytes}
    (h : matchAt is s = some ps) : search is s = some ps := by
  cases s with
  | nil => exact h
  | cons c s => rw [search, h, Option.some_or]

/-- The rest of a match, over the ways to match the first part. -/
theorem map_matchAt_cons {β : Type} (i : Part) (is : List Part) (s : Bytes)
    (f : List Bytes → β) : (matchAt (i :: is) s).map (fun ps => f ps.tail) =
      (i.rests s).findSome? fun rest => (matchAt is rest).map f := by
  rw [matchAt, pieces, List.head?_flatMap]
  induction i.rests s with
  | nil => rfl
  | cons rest more ih =>
      rw [List.findSome?_cons, List.findSome?_cons, List.head?_map, matchAt]
      cases (pieces is rest).head? with
      | none => exact ih
      | some qs => rfl

/-! ## Runs -/

/-- A text is taken apart in one way into a run of a class and what does not go on with it. -/
theorem run_inj {p : UInt8 → Bool} {u v x y : Bytes} (hu : ∀ c ∈ u, p c = true)
    (hv : ∀ c ∈ v, p c = true) (hx : Stops p x) (hy : Stops p y) (h : u ++ x = v ++ y) :
    u = v ∧ x = y := by
  induction u generalizing v with
  | nil =>
      cases v with
      | nil => exact ⟨rfl, h⟩
      | cons d v =>
          rw [List.nil_append] at h
          have := hx d (by rw [h, List.cons_append, List.head?_cons])
          rw [hv d List.mem_cons_self] at this
          cases this
  | cons c u ih =>
      obtain ⟨hc, hu⟩ := List.forall_mem_cons.1 hu
      cases v with
      | nil =>
          rw [List.nil_append] at h
          have := hy c (by rw [← h, List.cons_append, List.head?_cons])
          rw [hc] at this
          cases this
      | cons d v =>
          rw [List.cons_append, List.cons_append] at h
          obtain ⟨rfl, htail⟩ := List.cons.inj h
          obtain ⟨rfl, rfl⟩ := ih hu (List.forall_mem_cons.1 hv).2 htail
          exact ⟨rfl, rfl⟩

/-- A run that cannot go over a character in the text ends in front of it. -/
theorem run_before {p : UInt8 → Bool} {x : UInt8} {a b u v : Bytes}
    (hu : ∀ c ∈ u, p c = true) (hx : p x = false) (h : a ++ x :: b = u ++ v) :
    ∃ a', a = u ++ a' ∧ a' ++ x :: b = v := by
  obtain ⟨a', rfl, hv⟩ | ⟨c', rfl, hb⟩ := List.append_eq_append_iff.1 h
  · cases a' with
    | nil => exact ⟨[], by rw [List.append_nil, List.append_nil], hv⟩
    | cons d a' =>
        rw [List.cons_append] at hv
        obtain ⟨rfl, -⟩ := List.cons.inj hv
        rw [hu x (List.mem_append_right _ List.mem_cons_self)] at hx
        cases hx
  · exact ⟨c', rfl, hb.symm⟩

/-- A run that may go over the character ends in front of it, or right behind it where it
cannot go on. -/
theorem run_before_or {p : UInt8 → Bool} {x : UInt8} {a b u v : Bytes}
    (hu : ∀ c ∈ u, p c = true) (hb : Stops p b) (h : a ++ x :: b = u ++ v) :
    (∃ a', a = u ++ a' ∧ a' ++ x :: b = v) ∨ v = b := by
  obtain ⟨a', rfl, hv⟩ | ⟨c', rfl, hb'⟩ := List.append_eq_append_iff.1 h
  · cases a' with
    | nil => exact Or.inl ⟨[], by rw [List.append_nil, List.append_nil], hv⟩
    | cons d a' =>
        rw [List.cons_append] at hv
        obtain ⟨rfl, rfl⟩ := List.cons.inj hv
        cases a' with
        | nil => exact Or.inr rfl
        | cons e a' =>
            have hmem : e ∈ a ++ x :: e :: a' :=
              List.mem_append_right _ (List.mem_cons_of_mem _ List.mem_cons_self)
            have hstop := hb e rfl
            rw [hu e hmem] at hstop
            cases hstop
  · exact Or.inl ⟨c', rfl, hb'.symm⟩

end Capture

end Nazg.Lib

import Nazg.Lib.EcmaScript
import Nazg.Brain.PatternMatcher

/-!
# A pattern for one's own message

The expression that a failure is stored with is the text of its first lines. So it is read as
text only where no character has a meaning of its own, and it is found in the message itself
only where the lines stand one right below the other and the last of them has its line break:
that break belongs to the expression, the empty lines in between do not.

For lines without special characters the dot apart, and for lines that are no expression at
all, it is settled exactly when the pattern recognises its own message and no other.
-/

namespace Nazg.Brain

open Lib Lib.EcmaScript

/-- The lines that the pattern is made of. -/
def firstLines (message : Bytes) : List Bytes :=
  ((getFields 10 message).filter fun l => l ≠ []).take 3

/-- Up to letter case. -/
def Contains (text words : Bytes) : Prop := words.map lowerByte <:+: text.map lowerByte

/-- The pattern is found in its own message, and in no message that has none of the lines. -/
structure RecognisesOwn (message : Bytes) : Prop where
  own : matchesErrorPattern search message (extractErrorPattern message) = true
  others : ∀ error, (∀ l ∈ firstLines message, ¬ Contains error l) →
    matchesErrorPattern search error (extractErrorPattern message) = false

/-- Lines one right below the other, each with its line break, in either case and with a dot
for any character. -/
def beginsWithLines : List Bytes → Bytes → Prop
  | [], _ => True
  | l :: ls, s => beginsLike l s = true ∧ ∃ rest, s.drop l.length = 10 :: rest ∧
      beginsWithLines ls rest

/-- The lines can be read as text, stand together somewhere in the message, and one of them
has no dot. -/
structure StandTogether (message : Bytes) : Prop where
  plain : ∀ l ∈ firstLines message, Plain l
  together : ∃ s, s <:+ message ∧ beginsWithLines (firstLines message) s
  dotless : ∃ l ∈ firstLines message, dot ∉ l

/-! ## The pattern, line by line -/

theorem extractErrorPattern_eq (message : Bytes) :
    extractErrorPattern message = (firstLines message).flatMap fun l => l ++ [10] := rfl

theorem literal_lineEnd (d : UInt8) : literal 10 d = true ↔ d = 10 := by
  revert d
  exact forall_byte (by decide +kernel)

theorem beginsLike_lineEnd (p s : Bytes) :
    beginsLike (10 :: p) s = true ↔ ∃ rest, s = 10 :: rest ∧ beginsLike p rest = true := by
  cases s with
  | nil => simp [beginsLike]
  | cons d s =>
      have hend : pictured 10 = literal 10 := if_neg (by decide)
      rw [beginsLike, Bool.and_eq_true, hend, literal_lineEnd]
      constructor
      · rintro ⟨rfl, hrest⟩
        exact ⟨s, rfl, hrest⟩
      · rintro ⟨rest, heq, hrest⟩
        obtain ⟨rfl, rfl⟩ := List.cons.inj heq
        exact ⟨rfl, hrest⟩

theorem beginsLike_lines (ls : List Bytes) (s : Bytes) :
    beginsLike (ls.flatMap fun l => l ++ [10]) s = true ↔ beginsWithLines ls s := by
  induction ls generalizing s with
  | nil => simp [beginsLike, beginsWithLines]
  | cons l ls ih =>
      rw [List.flatMap_cons, List.append_assoc, beginsLike_append, Bool.and_eq_true,
        List.singleton_append, beginsLike_lineEnd, beginsWithLines]
      simp only [ih]

theorem plain_lines {ls : List Bytes} (h : ∀ l ∈ ls, Plain l) :
    Plain (ls.flatMap fun l => l ++ [10]) := by
  intro c hc hspecial
  obtain ⟨l, hl, hc⟩ := List.mem_flatMap.1 hc
  rcases List.mem_append.1 hc with hc | hc
  · exact h l hl c hc hspecial
  · rw [List.mem_singleton.1 hc] at hspecial
    exact absurd hspecial (by decide)

/-- What begins with lines has each of them somewhere. -/
theorem beginsLike_of_mem {ls : List Bytes} {s : Bytes} (h : beginsWithLines ls s) {l : Bytes}
    (hl : l ∈ ls) : ∃ r, r <:+ s ∧ beginsLike l r = true := by
  induction ls generalizing s with
  | nil => cases hl
  | cons l' ls ih =>
      obtain ⟨hbegins, rest, hrest, hlines⟩ := h
      rcases List.mem_cons.1 hl with rfl | hl
      · exact ⟨s, List.suffix_refl s, hbegins⟩
      · obtain ⟨r, hr, hlike⟩ := ih hlines hl
        have hbelow : rest <:+ s :=
          (List.suffix_cons 10 rest).trans (hrest ▸ List.drop_suffix _ s)
        exact ⟨r, hr.trans hbelow, hlike⟩

/-! ## Matching -/

theorem matchesErrorPattern_iff {pattern : Bytes} (hne : pattern ≠ []) (error : Bytes) :
    matchesErrorPattern search error pattern = true ↔ search pattern error = some true := by
  rw [matchesErrorPattern, decide_eq_true hne, Bool.true_and]
  cases search pattern error with
  | none => simp
  | some b => simp

theorem matches_own_pattern {message : Bytes} (h : ∀ l ∈ firstLines message, Plain l)
    (hne : firstLines message ≠ []) (error : Bytes) :
    matchesErrorPattern search error (extractErrorPattern message) = true ↔
      ∃ s, s <:+ error ∧ beginsWithLines (firstLines message) s := by
  have hpattern : extractErrorPattern message ≠ [] := by
    cases hlines : firstLines message with
    | nil => exact absurd hlines hne
    | cons l ls =>
        rw [extractErrorPattern_eq, hlines]
        simp
  rw [matchesErrorPattern_iff hpattern, extractErrorPattern_eq,
    search_eq_some_true (plain_lines h)]
  simp only [beginsLike_lines]

/-- With a dot in every line the pattern is found in a text that has no dot. -/
theorem exists_without_dot {message : Bytes} (h : ∀ l ∈ firstLines message, Plain l)
    (hne : firstLines message ≠ []) :
    ∃ error, dot ∉ error ∧
      matchesErrorPattern search error (extractErrorPattern message) = true := by
  refine ⟨(extractErrorPattern message).map fun c => if c = dot then 33 else c, ?_, ?_⟩
  · rw [List.mem_map]
    rintro ⟨c, -, hc⟩
    split at hc
    · cases hc
    · next hne => exact hne hc
  · rw [matches_own_pattern h hne]
    exact ⟨_, List.suffix_refl _, (beginsLike_lines _ _).1 (beginsLike_fill rfl _)⟩

theorem lowerByte_eq_dot (d : UInt8) : lowerByte d = dot → d = dot := by
  revert d
  exact forall_byte (by decide +kernel)

theorem dot_mem_of_contains {error l : Bytes} (hdot : dot ∈ l) (h : Contains error l) :
    dot ∈ error := by
  have hmem : dot ∈ l.map lowerByte := List.mem_map.2 ⟨dot, hdot, rfl⟩
  obtain ⟨d, hd, heq⟩ := List.mem_map.1 (h.subset hmem)
  rwa [lowerByte_eq_dot d heq] at hd

end Nazg.Brain

import Nazg.Lib.Bytes

/-!
# Variables in texts

A text may refer to variables the way a shell's words do: by `$NAME`, by `${NAME}` and by
`${NAME:-fallback}`, where the fallback is a text of the same kind. `expand` puts for each
reference the value of its variable, or the expansion of its fallback if the variable is not
set, or nothing; values are not expanded again. A `$` that begins no reference stands for
itself.
-/

namespace Nazg.Lib

abbrev dollar : UInt8 := 36

/-- What a reference says, and what follows it. -/
structure Reference where
  name : Bytes
  fallback : Option Bytes
  rest : Bytes

namespace Variables

def isNameStart (c : UInt8) : Bool :=
  (65 ≤ c && c ≤ 90) || (97 ≤ c && c ≤ 122) || c = 95

def isNameChar (c : UInt8) : Bool := isNameStart c || (48 ≤ c && c ≤ 57)

/-- A name in braces ends with the reference or with its fallback. -/
def isBracedNameChar (c : UInt8) : Bool := c ≠ closeBrace && c ≠ 58

/-- The text before the brace that closes it and the text behind; there are `nested`
references still open, and `afterDollar` tells whether the last character was a `$`. -/
def untilClose : Nat → Bool → Bytes → Option (Bytes × Bytes)
  | _, _, [] => none
  | nested, afterDollar, c :: s =>
      if c = closeBrace then
        match nested with
        | 0 => some ([], s)
        | n + 1 => (untilClose n false s).map fun p => (c :: p.1, p.2)
      else if c = openBrace && afterDollar then
        (untilClose (nested + 1) false s).map fun p => (c :: p.1, p.2)
      else (untilClose nested (c = dollar) s).map fun p => (c :: p.1, p.2)

/-- The reference behind `$`. -/
def readNamed : Bytes → Option Reference
  | [] => none
  | c :: s =>
      if isNameStart c then
        some ⟨c :: s.takeWhile isNameChar, none, s.dropWhile isNameChar⟩
      else none

/-- The reference behind `${`. -/
def readBraced (s : Bytes) : Option Reference :=
  let name := s.takeWhile isBracedNameChar
  if name = [] then none
  else
    match s.dropWhile isBracedNameChar with
    | [] => none
    | c :: rest =>
        if c = closeBrace then some ⟨name, none, rest⟩
        else
          match rest with
          | [] => none
          | d :: rest =>
              if d = 45 then
                (untilClose 0 false rest).map fun p => ⟨name, some p.1, p.2⟩
              else none

/-- The reference at the beginning of a text. -/
def readReference : Bytes → Option Reference
  | c :: d :: s =>
      if c = dollar then
        if d = openBrace then readBraced s else readNamed (d :: s)
      else none
  | _ => none

/-- Whether there is a reference anywhere. -/
def hasReference : Bytes → Bool
  | [] => false
  | c :: s => (readReference (c :: s)).isSome || hasReference s

/-! ## References are shorter than their texts -/

theorem length_untilClose {nested : Nat} {afterDollar : Bool} {s : Bytes} {p : Bytes × Bytes}
    (h : untilClose nested afterDollar s = some p) : p.1.length + p.2.length < s.length := by
  induction s generalizing nested afterDollar p with
  | nil => simp [untilClose] at h
  | cons c s ih =>
      rw [untilClose.eq_def] at h
      simp only at h
      split at h
      · split at h
        · obtain rfl := Option.some.inj h
          simp
        · obtain ⟨q, hq, rfl⟩ := Option.map_eq_some_iff.1 h
          have := ih hq
          simp only [List.length_cons]
          omega
      · split at h <;>
        · obtain ⟨q, hq, rfl⟩ := Option.map_eq_some_iff.1 h
          have := ih hq
          simp only [List.length_cons]
          omega

theorem length_readNamed {s : Bytes} {r : Reference} (h : readNamed s = some r) :
    r.fallback = none ∧ r.rest.length < s.length := by
  cases s with
  | nil => simp [readNamed] at h
  | cons c s =>
      rw [readNamed] at h
      split at h
      · obtain rfl := Option.some.inj h
        refine ⟨rfl, ?_⟩
        exact Nat.lt_succ_of_le (List.dropWhile_suffix _).length_le
      · simp at h

theorem length_readBraced {s : Bytes} {r : Reference} (h : readBraced s = some r) :
    (r.fallback.getD []).length + r.rest.length < s.length := by
  have hdrop : (s.dropWhile isBracedNameChar).length ≤ s.length :=
    (List.dropWhile_suffix _).length_le
  simp only [readBraced] at h
  split at h
  · simp at h
  · split at h
    · simp at h
    · rename_i c rest hrest
      rw [hrest, List.length_cons] at hdrop
      split at h
      · obtain rfl := Option.some.inj h
        simp only [Option.getD_none, List.length_nil]
        omega
      · split at h
        · simp at h
        · split at h
          · obtain ⟨p, hp, rfl⟩ := Option.map_eq_some_iff.1 h
            have := length_untilClose hp
            simp only [List.length_cons] at hdrop
            simp only [Option.getD_some]
            omega
          · simp at h

theorem length_readReference {s : Bytes} {r : Reference} (h : readReference s = some r) :
    (r.fallback.getD []).length + r.rest.length + 1 < s.length := by
  rw [readReference.eq_def] at h
  split at h
  · rename_i c d s
    simp only [List.length_cons]
    split at h
    · split at h
      · have := length_readBraced h
        omega
      · obtain ⟨hf, hlen⟩ := length_readNamed h
        rw [hf]
        simp only [List.length_cons, Option.getD_none, List.length_nil] at hlen ⊢
        omega
    · simp at h
  · simp at h

/-! ## Expansion -/

/-- What a text stands for in an environment. -/
def expand (env : Bytes → Option Bytes) : Bytes → Bytes
  | [] => []
  | c :: s =>
      match h : readReference (c :: s) with
      | none => c :: expand env s
      | some r =>
          have := length_readReference h
          (env r.name).getD (expand env (r.fallback.getD [])) ++ expand env r.rest
termination_by s => s.length
decreasing_by all_goals simp only [List.length_cons] at *; omega

@[simp] theorem expand_nil (env : Bytes → Option Bytes) : expand env [] = [] := by
  rw [expand]

theorem expand_cons_of_none {env : Bytes → Option Bytes} {c : UInt8} {s : Bytes}
    (h : readReference (c :: s) = none) : expand env (c :: s) = c :: expand env s := by
  rw [expand]
  split
  · rfl
  · rename_i hr
    rw [h] at hr
    cases hr

theorem expand_of_reference {env : Bytes → Option Bytes} {s : Bytes} {r : Reference}
    (h : readReference s = some r) :
    expand env s =
      (env r.name).getD (expand env (r.fallback.getD [])) ++ expand env r.rest := by
  cases s with
  | nil => simp [readReference] at h
  | cons c s =>
      rw [expand]
      split
      · rename_i hr
        rw [h] at hr
        cases hr
      · rename_i r' hr
        rw [h] at hr
        obtain rfl := Option.some.inj hr
        rfl

/-- A text without references stands for itself. -/
theorem expand_eq_self {env : Bytes → Option Bytes} {s : Bytes} (h : hasReference s = false) :
    expand env s = s := by
  induction s with
  | nil => exact expand_nil env
  | cons c s ih =>
      rw [hasReference, Bool.or_eq_false_iff, Option.isSome_eq_false_iff,
        Option.isNone_iff_eq_none] at h
      rw [expand_cons_of_none h.1, ih h.2]

/-- Where no variable is set a text only gets shorter. -/
theorem length_expand_empty_le (s : Bytes) : (expand (fun _ => none) s).length ≤ s.length := by
  induction hn : s.length using Nat.strong_induction_on generalizing s with
  | _ n ih =>
      subst hn
      cases s with
      | nil => simp
      | cons c s =>
          cases hr : readReference (c :: s) with
          | none =>
              have := ih s.length (by simp) s rfl
              rw [expand_cons_of_none hr]
              simp only [List.length_cons]
              omega
          | some r =>
              have hlen := length_readReference hr
              have hf := ih _ (by omega) (r.fallback.getD []) rfl
              have hrest := ih _ (by omega) r.rest rfl
              rw [expand_of_reference hr, Option.getD_none, List.length_append]
              omega

theorem length_expand_empty_lt {s : Bytes} (h : hasReference s = true) :
    (expand (fun _ => none) s).length < s.length := by
  induction s with
  | nil => simp [hasReference] at h
  | cons c s ih =>
      cases hr : readReference (c :: s) with
      | none =>
          rw [hasReference, hr, Option.isSome_none, Bool.false_or] at h
          rw [expand_cons_of_none hr]
          simpa using ih h
      | some r =>
          have hlen := length_readReference hr
          have hf := length_expand_empty_le (r.fallback.getD [])
          have hrest := length_expand_empty_le r.rest
          rw [expand_of_reference hr, Option.getD_none, List.length_append]
          omega

/-- The texts that stand for themselves in every environment are those without references. -/
theorem forall_expand_eq_self_iff {s : Bytes} :
    (∀ env, expand env s = s) ↔ hasReference s = false := by
  refine ⟨fun h => ?_, fun h env => expand_eq_self h⟩
  by_contra hne
  have hlt := length_expand_empty_lt (Bool.eq_true_of_not_eq_false hne)
  rw [h fun _ => none] at hlt
  omega

end Variables

end Nazg.Lib

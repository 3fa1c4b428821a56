import Nazg.Lib.Decimal

/-!
# Cutting a text into pieces

What a string stream gives for a text: the fields of `std::getline` with a delimiter, the
words of `operator>>`. And the character classes of the C locale, which know no letters
beyond the ASCII ones.
-/

namespace Nazg.Lib

/-- `std::getline` with a delimiter until it fails: there is no field behind the last
delimiter. -/
def getFields (delim : UInt8) : Bytes → List Bytes
  | [] => []
  | c :: s =>
      if c = delim then [] :: getFields delim s
      else
        match getFields delim s with
        | [] => [[c]]
        | f :: fs => (c :: f) :: fs

/-- `operator>>` until it fails. -/
def getWords : Bytes → List Bytes
  | [] => []
  | c :: s =>
      if isSpace c then getWords s
      else
        match s, getWords s with
        | [], _ => [[c]]
        | d :: _, ws =>
            if isSpace d then [c] :: ws
            else
              match ws with
              | [] => [[c]]
              | w :: ws => (c :: w) :: ws

/-- `operator>>` once: the word and what is left behind it. -/
def readWord (s : Bytes) : Option (Bytes × Bytes) :=
  let s := s.dropWhile isSpace
  if s = [] then none
  else some (s.takeWhile fun c => !isSpace c, s.dropWhile fun c => !isSpace c)

/-- `std::tolower`. -/
def lowerByte (c : UInt8) : UInt8 := if 65 ≤ c ∧ c ≤ 90 then c + 32 else c

/-- `std::ispunct`. -/
def isPunct (c : UInt8) : Bool :=
  (33 ≤ c && c ≤ 47) || (58 ≤ c && c ≤ 64) || (91 ≤ c && c ≤ 96) || (123 ≤ c && c ≤ 126)

theorem readWord_space {c : UInt8} (h : isSpace c = true) (s : Bytes) :
    readWord (c :: s) = readWord s := by
  rw [readWord, List.dropWhile_cons_of_pos h, readWord]

theorem readWord_append {w : Bytes} (hw : w ≠ []) (hword : ∀ c ∈ w, isSpace c = false) {c : UInt8}
    (hc : isSpace c = true) (s : Bytes) : readWord (w ++ c :: s) = some (w, c :: s) := by
  cases w with
  | nil => exact absurd rfl hw
  | cons d w =>
      have hd : ¬ isSpace d = true := by
        rw [hword d List.mem_cons_self]
        exact Bool.false_ne_true
      have hall : ∀ x ∈ d :: w, (!isSpace x) = true := fun x hx => by rw [hword x hx]; rfl
      have hstop : ¬ (!isSpace c) = true := by
        rw [hc]
        exact Bool.false_ne_true
      rw [readWord, List.cons_append, List.dropWhile_cons_of_neg hd,
        if_neg (List.cons_ne_nil _ _), ← List.cons_append, List.takeWhile_append_of_pos hall,
        List.dropWhile_append_of_pos hall, List.takeWhile_cons_of_neg (p := fun c => !isSpace c) hstop,
        List.dropWhile_cons_of_neg (p := fun c => !isSpace c) hstop, List.append_nil]

theorem getFields_append_delim {delim : UInt8} {l : Bytes} (h : delim ∉ l) (s : Bytes) :
    getFields delim (l ++ delim :: s) = l :: getFields delim s := by
  induction l with
  | nil => simp [getFields]
  | cons c l ih =>
      rw [List.mem_cons, not_or] at h
      rw [List.cons_append, getFields, if_neg (Ne.symm h.1), ih h.2]

theorem mem_getFields {delim c : UInt8} {s f : Bytes} (hf : f ∈ getFields delim s) (hc : c ∈ f) :
    c ≠ delim ∧ c ∈ s := by
  induction s generalizing f with
  | nil => cases hf
  | cons x s ih =>
      rw [getFields] at hf
      split at hf
      · rcases List.mem_cons.1 hf with rfl | hf
        · cases hc
        · exact (ih hf hc).imp_right (List.mem_cons_of_mem _)
      · next hx =>
          have hself : ∀ {c}, c = x → c ≠ delim ∧ c ∈ x :: s := by
            rintro _ rfl
            exact ⟨hx, List.mem_cons_self⟩
          split at hf
          · rw [List.mem_singleton.1 hf] at hc
            exact hself (List.mem_singleton.1 hc)
          · next g gs hgs =>
              rw [hgs] at ih
              rcases List.mem_cons.1 hf with rfl | hf
              · rcases List.mem_cons.1 hc with hc | hc
                · exact hself hc
                · exact (ih List.mem_cons_self hc).imp_right (List.mem_cons_of_mem _)
              · exact (ih (List.mem_cons_of_mem _ hf) hc).imp_right (List.mem_cons_of_mem _)

theorem getFields_flatMap_append {delim : UInt8} {ls : List Bytes} (h : ∀ l ∈ ls, delim ∉ l)
    (s : Bytes) : getFields delim (ls.flatMap (· ++ [delim]) ++ s) = ls ++ getFields delim s := by
  induction ls with
  | nil => rfl
  | cons l ls ih =>
      obtain ⟨hl, h⟩ := List.forall_mem_cons.1 h
      rw [List.flatMap_cons, List.append_assoc, List.append_assoc, List.singleton_append,
        getFields_append_delim hl, ih h, List.cons_append]

theorem getFields_of_notMem {delim : UInt8} {l : Bytes} (h : delim ∉ l) (hl : l ≠ []) :
    getFields delim l = [l] := by
  induction l with
  | nil => exact absurd rfl hl
  | cons c l ih =>
      rw [List.mem_cons, not_or] at h
      rw [getFields, if_neg (Ne.symm h.1)]
      cases l with
      | nil => rfl
      | cons d l => rw [ih h.2 (List.cons_ne_nil _ _)]

theorem mem_intercalate {x : UInt8} {sep : Bytes} {parts : List Bytes}
    (h : x ∈ sep.intercalate parts) : x ∈ sep ∨ ∃ p ∈ parts, x ∈ p := by
  induction parts with
  | nil => cases h
  | cons p parts ih =>
      cases parts with
      | nil =>
          rw [List.intercalate_singleton] at h
          exact Or.inr ⟨p, List.mem_cons_self, h⟩
      | cons q parts =>
          rw [List.intercalate_cons_cons, List.mem_append, List.mem_append] at h
          obtain (h | h) | h := h
          · exact Or.inr ⟨p, List.mem_cons_self, h⟩
          · exact Or.inl h
          · obtain h | ⟨r, hr, h⟩ := ih h
            · exact Or.inl h
            · exact Or.inr ⟨r, List.mem_cons_of_mem p hr, h⟩

theorem length_getFields_cons {delim c : UInt8} (h : c ≠ delim) (s : Bytes) :
    (getFields delim (c :: s)).length = max 1 (getFields delim s).length := by
  rw [getFields, if_neg h]
  cases getFields delim s with
  | nil => rfl
  | cons f fs =>
      rw [List.length_cons, List.length_cons]
      omega

theorem getFields_ne_nil {delim : UInt8} {s : Bytes} (h : s ≠ []) : getFields delim s ≠ [] := by
  cases s with
  | nil => exact absurd rfl h
  | cons c s =>
      rw [getFields]
      split
      · exact List.cons_ne_nil _ _
      · split <;> exact List.cons_ne_nil _ _

/-- Two texts one behind the other have no more fields than the two alone. -/
theorem length_getFields_append_le (delim : UInt8) (s t : Bytes) :
    (getFields delim (s ++ t)).length ≤
      (getFields delim s).length + (getFields delim t).length := by
  induction s with
  | nil => simp [getFields]
  | cons c s ih =>
      rw [List.cons_append]
      by_cases h : c = delim
      · simp only [getFields, if_pos h, List.length_cons]
        omega
      · rw [length_getFields_cons h, length_getFields_cons h]
        omega

theorem length_getFields_le_append (delim : UInt8) (s t : Bytes) :
    (getFields delim t).length ≤ (getFields delim (s ++ t)).length := by
  induction s with
  | nil => exact Nat.le_refl _
  | cons c s ih =>
      rw [List.cons_append]
      by_cases h : c = delim
      · simp only [getFields, if_pos h, List.length_cons]
        omega
      · rw [length_getFields_cons h]
        omega

/-- A text that ends with a delimiter does not run into the next one. -/
theorem getFields_append_of_end {delim : UInt8} {s : Bytes} (h : s = [] ∨ s.getLast? = some delim)
    (t : Bytes) : getFields delim (s ++ t) = getFields delim s ++ getFields delim t := by
  induction s with
  | nil => rfl
  | cons c s ih =>
      have hlast : (c :: s).getLast? = some delim := h.resolve_left (List.cons_ne_nil c s)
      rw [List.cons_append, getFields, getFields]
      by_cases hc : c = delim
      · rw [if_pos hc, if_pos hc, List.cons_append]
        refine congrArg ([] :: ·) (ih ?_)
        cases s with
        | nil => exact .inl rfl
        | cons d s =>
            rw [List.getLast?_cons_cons] at hlast
            exact .inr hlast
      · rw [if_neg hc, if_neg hc]
        cases s with
        | nil =>
            rw [List.getLast?_singleton, Option.some.injEq] at hlast
            exact absurd hlast hc
        | cons d s =>
            rw [List.getLast?_cons_cons] at hlast
            rw [ih (.inr hlast)]
            cases hfields : getFields delim (d :: s) with
            | nil => exact absurd hfields (getFields_ne_nil (List.cons_ne_nil d s))
            | cons f fs => rfl

/-! ## Words of a string -/

theorem getWords_space {c : UInt8} (h : isSpace c = true) (s : Bytes) :
    getWords (c :: s) = getWords s := by
  rw [getWords.eq_def]
  exact if_pos h

theorem getWords_ink {c : UInt8} (h : isSpace c = false) (s : Bytes) :
    getWords (c :: s) =
      match s, getWords s with
      | [], _ => [[c]]
      | d :: _, ws =>
          if isSpace d then [c] :: ws
          else
            match ws with
            | [] => [[c]]
            | w :: ws => (c :: w) :: ws := by
  rw [getWords.eq_def]
  exact if_neg (by rw [h]; exact Bool.false_ne_true)

theorem getWords_append {w s : Bytes} (hw : w ≠ []) (hword : ∀ c ∈ w, isSpace c = false)
    (hs : ∀ c ∈ s.head?, isSpace c = true) : getWords (w ++ s) = w :: getWords s := by
  induction w with
  | nil => exact absurd rfl hw
  | cons c w ih =>
      obtain ⟨hc, hword⟩ := List.forall_mem_cons.1 hword
      rw [List.cons_append, getWords_ink hc]
      cases w with
      | nil =>
          rw [List.nil_append]
          cases s with
          | nil => rfl
          | cons d s => simp only [if_pos (hs d rfl)]
      | cons d w =>
          have hd : ¬ isSpace d = true := by
            rw [hword d List.mem_cons_self]
            exact Bool.false_ne_true
          rw [ih (List.cons_ne_nil _ _) hword]
          simp only [List.cons_append, if_neg hd]

/-- The words are what is not white space. -/
theorem flatten_getWords (s : Bytes) : (getWords s).flatten = s.filter fun c => !isSpace c := by
  induction s with
  | nil => rfl
  | cons c s ih =>
      cases hc : isSpace c with
      | true => rw [getWords_space hc, ih, List.filter_cons_of_neg (by simp [hc])]
      | false =>
          rw [getWords_ink hc, List.filter_cons_of_pos (by simp [hc]), ← ih]
          cases s with
          | nil => rfl
          | cons d s =>
              simp only
              split
              · rfl
              · next hd =>
                  split
                  · next hnil =>
                      rw [hnil, List.flatten_nil, List.filter_cons_of_pos (by simp [hd])] at ih
                      cases ih
                  · next hcons => rw [hcons]; rfl

theorem of_mem_getWords {s w : Bytes} (hw : w ∈ getWords s) :
    w ≠ [] ∧ ∀ c ∈ w, isSpace c = false := by
  induction s generalizing w with
  | nil => cases hw
  | cons c s ih =>
      cases hc : isSpace c with
      | true =>
          rw [getWords_space hc] at hw
          exact ih hw
      | false =>
          have hone : ∀ x ∈ [c], isSpace x = false := by simpa using hc
          rw [getWords_ink hc] at hw
          cases s with
          | nil =>
              rw [List.mem_singleton.1 hw]
              exact ⟨List.cons_ne_nil _ _, hone⟩
          | cons d s =>
              simp only at hw
              split at hw
              · rcases List.mem_cons.1 hw with rfl | hw
                · exact ⟨List.cons_ne_nil _ _, hone⟩
                · exact ih hw
              · split at hw
                · rw [List.mem_singleton.1 hw]
                  exact ⟨List.cons_ne_nil _ _, hone⟩
                · next hcons =>
                    rw [hcons] at ih
                    rcases List.mem_cons.1 hw with rfl | hw
                    · refine ⟨List.cons_ne_nil _ _, List.forall_mem_cons.2 ⟨?_, ?_⟩⟩
                      · exact hone c List.mem_cons_self
                      · exact (ih List.mem_cons_self).2
                    · exact ih (List.mem_cons_of_mem _ hw)

end Nazg.Lib

import Nazg.Lib.Bytes

/-!
# Decimal numbers as text

`std::to_string` on one side, `std::stoi` and `std::stoll` on the other. The
parsers take what the standard ones take: leading white space, an optional sign,
the longest run of digits, and a refusal when there is no digit or the value
does not fit. `parseInteger_decimal` is the round trip, for every value in the
range the parser is given.
-/

namespace Nazg.Lib

def isDigit (c : UInt8) : Bool := 48 ≤ c && c ≤ 57

/-- `isspace` in the C locale. -/
def isSpace (c : UInt8) : Bool := c = 32 || (9 ≤ c && c ≤ 13)

def natDecimal (n : Nat) : Bytes := (Nat.toDigits 10 n).map Char.toUInt8

/-- `std::to_string`. -/
def decimal : Int → Bytes
  | .ofNat n => natDecimal n
  | .negSucc n => 45 :: natDecimal (n + 1)

/-- The number a run of digits stands for. -/
def digitsValue (ds : Bytes) : Nat := ds.foldl (fun acc c => 10 * acc + (c.toNat - 48)) 0

/-- What follows an optional sign. -/
def stripSign (s : Bytes) : Bytes :=
  if s.head? = some 45 ∨ s.head? = some 43 then s.tail else s

/-- Digits and sign, as the standard parsers read them once white space is
skipped. `none` is their exception. -/
def parseSigned (lo hi : Int) (s : Bytes) : Option Int :=
  let ds := (stripSign s).takeWhile isDigit
  if ds = [] then none
  else
    let v : Int := if s.head? = some 45 then -(digitsValue ds : Int) else digitsValue ds
    if lo ≤ v ∧ v ≤ hi then some v else none

def parseInteger (lo hi : Int) (s : Bytes) : Option Int :=
  parseSigned lo hi (s.dropWhile isSpace)

/-- `std::stoi`. -/
def stoi (s : Bytes) : Option Int := parseInteger (-2 ^ 31) (2 ^ 31 - 1) s

/-- `std::stoll`. -/
def stoll (s : Bytes) : Option Int := parseInteger (-2 ^ 63) (2 ^ 63 - 1) s

/-! ## Digits -/

theorem toUInt8_toNat_of_isDigit {c : Char} (h : c.isDigit = true) :
    c.toUInt8.toNat = c.toNat := by
  rw [Char.isDigit_iff_toNat] at h
  exact Nat.mod_eq_of_lt (show c.toNat < 256 by simp at h; omega)

theorem isDigit_toUInt8 {c : Char} (h : c.isDigit = true) : isDigit c.toUInt8 = true := by
  have hn := toUInt8_toNat_of_isDigit h
  rw [Char.isDigit_iff_toNat] at h
  simp only [isDigit, Bool.and_eq_true, decide_eq_true_eq, UInt8.le_iff_toNat_le, hn]
  simpa using h

theorem isDigit_of_mem_natDecimal {n : Nat} {c : UInt8} (h : c ∈ natDecimal n) :
    isDigit c = true := by
  obtain ⟨d, hd, rfl⟩ := List.mem_map.1 h
  exact isDigit_toUInt8 (Nat.isDigit_of_mem_toDigits (by decide) (by decide) hd)

theorem natDecimal_ne_nil (n : Nat) : natDecimal n ≠ [] := by
  simp [natDecimal]

theorem digitsValue_natDecimal (n : Nat) : digitsValue (natDecimal n) = n := by
  have hfold : ∀ (ds : List Char), (∀ d ∈ ds, d.isDigit = true) → ∀ acc,
      (ds.map Char.toUInt8).foldl (fun acc c => 10 * acc + (c.toNat - 48)) acc =
        Nat.ofDigitChars 10 ds acc := by
    intro ds
    induction ds with
    | nil => intro _ acc; simp
    | cons d ds ih =>
        intro hd acc
        rw [List.map_cons, List.foldl_cons, Nat.ofDigitChars_cons,
          toUInt8_toNat_of_isDigit (hd d List.mem_cons_self),
          ih fun x hx => hd x (List.mem_cons_of_mem _ hx)]
        rfl
  rw [digitsValue, natDecimal, hfold _ fun d hd =>
    Nat.isDigit_of_mem_toDigits (by decide) (by decide) hd]
  exact Nat.ofDigitChars_ten_toDigits

theorem takeWhile_natDecimal (n : Nat) {rest : Bytes}
    (hrest : ∀ c, rest.head? = some c → isDigit c = false) :
    (natDecimal n ++ rest).takeWhile isDigit = natDecimal n := by
  rw [List.takeWhile_append_of_pos fun c hc => isDigit_of_mem_natDecimal hc]
  cases rest with
  | nil => simp
  | cons c rest => simp [hrest c rfl]

theorem natDecimal_head {n : Nat} {c : UInt8} (h : (natDecimal n).head? = some c) :
    isDigit c = true :=
  isDigit_of_mem_natDecimal (List.mem_of_head? h)

theorem natDecimal_head_ne {n : Nat} {c : UInt8} (hc : isDigit c = false) :
    (natDecimal n).head? ≠ some c := by
  intro h
  rw [natDecimal_head h] at hc
  cases hc

@[simp] theorem stripSign_natDecimal (n : Nat) : stripSign (natDecimal n) = natDecimal n :=
  if_neg (not_or.2 ⟨natDecimal_head_ne (by decide), natDecimal_head_ne (by decide)⟩)

@[simp] theorem stripSign_neg (s : Bytes) : stripSign (45 :: s) = s := rfl

theorem not_isDigit_of_isSpace {c : UInt8} (h : isSpace c = true) : isDigit c = false := by
  simp only [isSpace, isDigit, Bool.or_eq_true, Bool.and_eq_true, decide_eq_true_eq,
    UInt8.le_iff_toNat_le] at h ⊢
  rcases h with rfl | ⟨_, h⟩
  · decide
  · rw [Bool.and_eq_false_iff]
    left
    simp at h ⊢
    omega

/-! ## The round trip -/

theorem parseSigned_natDecimal {lo hi : Int} {n : Nat} (hlo : lo ≤ n) (hhi : (n : Int) ≤ hi) :
    parseSigned lo hi (natDecimal n) = some (n : Int) := by
  have htw : (natDecimal n).takeWhile isDigit = natDecimal n := by
    simpa using takeWhile_natDecimal n (by simp : ∀ c, ([] : Bytes).head? = some c → _)
  simp only [parseSigned, stripSign_natDecimal, htw, if_neg (natDecimal_ne_nil n),
    if_neg (natDecimal_head_ne (n := n) (c := 45) (by decide)), digitsValue_natDecimal,
    if_pos (And.intro hlo hhi)]

theorem parseSigned_neg {lo hi : Int} {n : Nat} (hlo : lo ≤ -(n : Int)) (hhi : -(n : Int) ≤ hi) :
    parseSigned lo hi (45 :: natDecimal n) = some (-(n : Int)) := by
  have htw : (natDecimal n).takeWhile isDigit = natDecimal n := by
    simpa using takeWhile_natDecimal n (by simp : ∀ c, ([] : Bytes).head? = some c → _)
  simp only [parseSigned, stripSign_neg, List.head?_cons, if_true, htw,
    if_neg (natDecimal_ne_nil n), digitsValue_natDecimal, if_pos (And.intro hlo hhi)]

/-- What `to_string` writes, the parsers read back, over the whole range. -/
theorem parseInteger_decimal {lo hi n : Int} (hlo : lo ≤ n) (hhi : n ≤ hi) :
    parseInteger lo hi (decimal n) = some n := by
  have hskip : ∀ (c : UInt8) (s : Bytes), isSpace c = false →
      (c :: s).dropWhile isSpace = c :: s := by
    intro c s hc
    rw [List.dropWhile_cons_of_neg (by simp [hc])]
  cases n with
  | ofNat n =>
      rw [parseInteger, decimal]
      cases hd : natDecimal n with
      | nil => exact absurd hd (natDecimal_ne_nil n)
      | cons c s =>
          have hc : isSpace c = false := by
            by_contra hs
            have h1 := not_isDigit_of_isSpace (by simpa using hs)
            have h2 := natDecimal_head (n := n) (c := c) (by rw [hd]; rfl)
            rw [h1] at h2
            cases h2
          rw [hskip c s hc, ← hd]
          exact parseSigned_natDecimal hlo hhi
  | negSucc n =>
      rw [parseInteger, decimal, hskip 45 _ (by decide)]
      exact parseSigned_neg hlo hhi

/-- A number that is read with some bounds is read with others if they hold it. -/
theorem parseInteger_eq {lo hi n : Int} {s : Bytes} (h : parseInteger lo hi s = some n)
    (lo' hi' : Int) :
    parseInteger lo' hi' s = if lo' ≤ n ∧ n ≤ hi' then some n else none := by
  have hbounds : ∀ v : Int, (if lo ≤ v ∧ v ≤ hi then some v else none) = some n →
      (if lo' ≤ v ∧ v ≤ hi' then some v else none) =
        if lo' ≤ n ∧ n ≤ hi' then some n else none := by
    intro v hv
    split at hv
    · rw [Option.some_inj.1 hv]
    · cases hv
  simp only [parseInteger, parseSigned] at h ⊢
  generalize s.dropWhile isSpace = t at h ⊢
  by_cases hnone : (stripSign t).takeWhile isDigit = []
  · rw [if_pos hnone] at h
    cases h
  · rw [if_neg hnone] at h ⊢
    exact hbounds _ h

theorem decimal_injective : Function.Injective decimal := by
  intro m n h
  have hm : parseInteger (min m n) (max m n) (decimal m) = some m :=
    parseInteger_decimal (by omega) (by omega)
  rw [h, parseInteger_decimal (by omega) (by omega), Option.some_inj] at hm
  exact hm.symm

theorem stoi_decimal {n : Int} (hlo : -2 ^ 31 ≤ n) (hhi : n ≤ 2 ^ 31 - 1) :
    stoi (decimal n) = some n :=
  parseInteger_decimal hlo hhi

/-- A number that is not negative is read unless it is too large for an `int`. -/
theorem stoi_decimal_natCast (n : Nat) :
    stoi (decimal n) = if n < 2 ^ 31 then some (n : Int) else none := by
  have hwide : parseInteger 0 (n : Int) (decimal n) = some (n : Int) :=
    parseInteger_decimal (by omega) (le_refl _)
  rw [stoi, parseInteger_eq hwide]
  refine if_congr ?_ rfl rfl
  omega

/-- No number is written with a line break, or with any byte below the sign. -/
theorem lt_of_mem_decimal {n : Int} {c : UInt8} (h : c ∈ decimal n) : 44 < c := by
  have hdig : ∀ m, c ∈ natDecimal m → 44 < c := by
    intro m hm
    have := isDigit_of_mem_natDecimal hm
    simp only [isDigit, Bool.and_eq_true, decide_eq_true_eq] at this
    exact lt_of_lt_of_le (by decide) this.1
  cases n with
  | ofNat n => exact hdig n h
  | negSucc n =>
      rcases List.mem_cons.1 h with rfl | h
      · decide
      · exact hdig _ h

theorem mem_decimal_lt {n : Int} {c : UInt8} (h : c ∈ decimal n) : c < 58 := by
  have hdig : ∀ m, c ∈ natDecimal m → c < 58 := by
    intro m hm
    have := isDigit_of_mem_natDecimal hm
    simp only [isDigit, Bool.and_eq_true, decide_eq_true_eq] at this
    exact lt_of_le_of_lt this.2 (by decide)
  cases n with
  | ofNat n => exact hdig n h
  | negSucc n =>
      rcases List.mem_cons.1 h with rfl | h
      · decide
      · exact hdig _ h

example : decimal (-120) = bytes "-120" := by decide
example : stoi (bytes " 42x") = some 42 := by decide

end Nazg.Lib

import Mathlib.Data.List.Basic
import Mathlib.Data.Int.ModEq
import Nazg.Lib.Hex

/-!
# A rolling checksum

`hash = hash * 31 + c` over the characters of a string, in a `size_t`, and the number in
hexadecimal. Characters are signed, so a byte above 127 is a negative number, and the sum
wraps around. What is left of the string is one polynomial at 31, modulo `2 ^ 64`
(`rollingText_eq_iff`).
-/

namespace Nazg.Lib

/-- A `char` converted to `size_t`. -/
def charBits (c : UInt8) : UInt64 := UInt64.ofInt c.toInt8.toInt

def rollingHash (s : Bytes) : UInt64 := s.foldl (fun hash c => hash * 31 + charBits c) 0

/-- A number through `std::hex`. -/
def hexNumber (n : Nat) : Bytes := (Nat.toDigits 16 n).map Char.toUInt8

/-- The checksum as it is kept. -/
def rollingText (s : Bytes) : Bytes := hexNumber (rollingHash s).toNat

/-! ## The digits -/

theorem digitChar_injective (m n : Fin 16)
    (h : (Nat.digitChar m).toUInt8 = (Nat.digitChar n).toUInt8) : m = n := by
  revert m n
  decide +kernel

theorem hexNumber_injective : Function.Injective hexNumber := by
  intro m
  induction m using Nat.strongRecOn with
  | ind m ih =>
      intro n h
      have hdigit : ∀ {a b : Nat}, a < 16 → b < 16 →
          (Nat.digitChar a).toUInt8 = (Nat.digitChar b).toUInt8 → a = b := by
        intro a b ha hb hab
        exact congrArg Fin.val (digitChar_injective ⟨a, ha⟩ ⟨b, hb⟩ hab)
      rw [hexNumber, hexNumber, Nat.toDigits_eq_if (n := m) (by decide),
        Nat.toDigits_eq_if (n := n) (by decide)] at h
      split at h
      · next hm =>
          split at h
          · next hn => exact hdigit hm hn (List.cons.inj h).1
          · rw [List.map_append] at h
            exact absurd (congrArg List.length h) (by simp)
      · next hm =>
          split at h
          · rw [List.map_append] at h
            exact absurd (congrArg List.length h) (by simp)
          · rw [List.map_append, List.map_append] at h
            obtain ⟨hhigh, hlow⟩ := List.append_inj' h rfl
            have hdiv : m / 16 = n / 16 := ih _ (by omega) hhigh
            have hmod : m % 16 = n % 16 :=
              hdigit (Nat.mod_lt _ (by decide)) (Nat.mod_lt _ (by decide)) (List.cons.inj hlow).1
            omega

/-! ## The value -/

/-- The value of the string read as digits at 31, each the signed value of a character. -/
def charPolynomial (s : Bytes) : Int := s.foldl (fun v c => v * 31 + c.toInt8.toInt) 0

theorem rollingHash_eq (s : Bytes) : rollingHash s = UInt64.ofInt (charPolynomial s) := by
  have hfold : ∀ (hash : UInt64) (v : Int), hash = UInt64.ofInt v →
      s.foldl (fun hash c => hash * 31 + charBits c) hash =
        UInt64.ofInt (s.foldl (fun v c => v * 31 + c.toInt8.toInt) v) := by
    induction s with
    | nil => exact fun _ _ h => h
    | cons c s ih =>
        intro hash v h
        refine ih _ _ ?_
        rw [h, UInt64.ofInt_add, UInt64.ofInt_mul]
        rfl
  exact hfold 0 0 rfl

theorem ofInt_eq_iff (x y : Int) : UInt64.ofInt x = UInt64.ofInt y ↔ x ≡ y [ZMOD 2 ^ 64] := by
  rw [UInt64.ofInt, UInt64.ofInt, ← UInt64.toNat_inj, UInt64.toNat_ofNat', UInt64.toNat_ofNat',
    Int.ModEq]
  omega

/-- Two strings have the same checksum exactly if their polynomials agree modulo `2 ^ 64`. -/
theorem rollingText_eq_iff (s t : Bytes) :
    rollingText s = rollingText t ↔ charPolynomial s ≡ charPolynomial t [ZMOD 2 ^ 64] := by
  rw [rollingText, rollingText, hexNumber_injective.eq_iff, UInt64.toNat_inj, rollingHash_eq,
    rollingHash_eq, ofInt_eq_iff]

end Nazg.Lib

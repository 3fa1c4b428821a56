import Nazg.Lib.Decimal

/-!
# Bytes in hexadecimal

Two lower-case digits a byte, as `std::hex` with `setw(2)` and `setfill('0')` writes
them, and the reader that takes two characters at a time through `std::istream`. The
reader is laxer than the writer: white space, a sign and a single digit all pass.
-/

namespace Nazg.Lib

/-- The lower-case digit of a number below 16. -/
def hexDigit (n : Nat) : UInt8 := if n < 10 then UInt8.ofNat (48 + n) else UInt8.ofNat (87 + n)

def toHex : Bytes → Bytes
  | [] => []
  | b :: s => hexDigit (b.toNat / 16) :: hexDigit (b.toNat % 16) :: toHex s

def hexValue (c : UInt8) : Option Nat :=
  if 48 ≤ c ∧ c ≤ 57 then some (c.toNat - 48)
  else if 97 ≤ c ∧ c ≤ 102 then some (c.toNat - 87)
  else if 65 ≤ c ∧ c ≤ 70 then some (c.toNat - 55)
  else none

/-- The value of a `char`, which has a sign on some platforms. -/
def charValue (signed : Bool) (c : UInt8) : Int :=
  if signed ∧ 128 ≤ c then c.toNat - 256 else c.toNat

/-- `%04x`, or `std::hex` with `setw(4)` and `setfill('0')`: at least four digits. -/
def hex4 (n : UInt32) : Bytes :=
  let digits := (List.range 8).reverse.map fun i => hexDigit (n.toNat / 16 ^ i % 16)
  let short := digits.dropWhile (· = 48)
  List.replicate (4 - short.length) 48 ++ short

/-- `iss >> std::hex >> byte` on two characters, cast to a byte: leading white space and a
sign are taken, a prefix alone is no number, and the number ends where its digits do. -/
def readHexByte (a b : UInt8) : Option UInt8 :=
  if isSpace a || a = 43 then (hexValue b).map UInt8.ofNat
  else if a = 45 then (hexValue b).map fun v => UInt8.ofNat (256 - v)
  else if a = 48 ∧ (b = 120 ∨ b = 88) then none
  else (hexValue a).map fun v =>
    match hexValue b with
    | some w => UInt8.ofNat (16 * v + w)
    | none => UInt8.ofNat v

def readHexBytes : Bytes → Option Bytes
  | [] => some []
  | [_] => none
  | a :: b :: s =>
      match readHexByte a b, readHexBytes s with
      | some x, some xs => some (x :: xs)
      | _, _ => none

/-- The bytes of a string of digits; none at all if it has a half byte or cannot be read. -/
def fromHex (s : Bytes) : Bytes := (readHexBytes s).getD []

theorem readHexByte_hexDigit (n : Fin 256) :
    readHexByte (hexDigit (n.val / 16)) (hexDigit (n.val % 16)) = some (UInt8.ofNat n.val) := by
  revert n
  decide +kernel

theorem readHexBytes_toHex (s : Bytes) : readHexBytes (toHex s) = some s := by
  induction s with
  | nil => rfl
  | cons b s ih =>
      have hb := readHexByte_hexDigit ⟨b.toNat, b.toNat_lt⟩
      simp only [UInt8.ofNat_toNat] at hb
      rw [toHex, readHexBytes, hb, ih]

@[simp] theorem fromHex_toHex (s : Bytes) : fromHex (toHex s) = s := by
  rw [fromHex, readHexBytes_toHex]
  rfl

theorem toHex_eq_nil {s : Bytes} : toHex s = [] ↔ s = [] := by
  cases s with
  | nil => simp [toHex]
  | cons b s => simp [toHex]

theorem length_toHex (s : Bytes) : (toHex s).length = 2 * s.length := by
  induction s with
  | nil => rfl
  | cons b s ih =>
      rw [toHex, List.length_cons, List.length_cons, List.length_cons, ih]
      omega

/-- No digit is a separator or a terminator. -/
theorem of_mem_toHex {s : Bytes} {c : UInt8} (h : c ∈ toHex s) : c ≠ 58 ∧ c ≠ 0 := by
  have hdigit : ∀ n : Fin 16, hexDigit n.val ≠ 58 ∧ hexDigit n.val ≠ 0 := by decide +kernel
  induction s with
  | nil => cases h
  | cons b s ih =>
      have hb := b.toNat_lt
      rw [toHex] at h
      rcases List.mem_cons.1 h with rfl | h
      · exact hdigit ⟨b.toNat / 16, by omega⟩
      · rcases List.mem_cons.1 h with rfl | h
        · exact hdigit ⟨b.toNat % 16, by omega⟩
        · exact ih h

end Nazg.Lib

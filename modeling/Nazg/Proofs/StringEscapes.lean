import Nazg.Agent.Scanner
import Nazg.Git.Gitea
import Nazg.Lib.JsonString

/-!
# Escaped strings are read back

Both escape functions compare a `char` with 32. Where a `char` has no sign every string is
read back by a JSON decoder. Where it has one, the bytes beyond ASCII are below 32 too and
come out as escapes of their own, which stand for other characters than the ones that they
are bytes of.
-/

namespace Nazg.Git

open Lib Lib.Json
open Agent (escapeByteOn escapeJsonOn)

variable {s : Bytes}

/-- What comes out of an escaped byte beyond ASCII is longer than the byte. -/
def ReadLonger (text : Bytes) : Prop :=
  ∃ v : Bytes, 2 ≤ v.length ∧ ∀ t, unescape (text ++ t) = (unescape t).map (v ++ ·)

/-- A way to escape that leaves ASCII what it is and is right for it. Of the other bytes it
keeps all, or it writes all as escapes. -/
structure Escapes (kept : Bool) (e : UInt8 → Bytes) : Prop where
  spells : ∀ c, c < 128 → Spells (e c) c
  ascii : ∀ c, c < 128 → IsAscii (e c)
  keeps : kept = true → ∀ c, 128 ≤ c → e c = [c]
  longer : kept = false → ∀ c, 128 ≤ c → ReadLonger (e c)

theorem spells_self {c : UInt8} (h : 128 ≤ c) : Spells [c] c := by
  revert h
  exact forall_byte (p := fun c => 128 ≤ c → Spells [c] c) (by decide +kernel) c

theorem Escapes.decodesTo_iff {kept : Bool} {e : UInt8 → Bytes} (h : Escapes kept e)
    (hs : IsUtf8 s) : DecodesTo (s.flatMap e) s ↔ kept = true ∨ IsAscii s := by
  -- bytes that are each read back give the string
  have hback : (∀ c ∈ s, Spells (e c) c) → unescape (s.flatMap e) = some s := by
    intro hspells
    rw [unescape_flatMap (f := fun c => [c]) fun c hc => (hspells c hc).unescape,
      List.flatMap_singleton']
  constructor
  · intro hdecodes
    cases kept with
    | true => exact .inl rfl
    | false =>
        refine .inr fun c hc => ?_
        by_contra hle
        have hread : ∀ c, ∃ v : Bytes, (1 ≤ v.length ∧ (128 ≤ c → 2 ≤ v.length)) ∧
            ∀ t, unescape (e c ++ t) = (unescape t).map (v ++ ·) := by
          intro c
          rcases UInt8.lt_or_le c 128 with hlt | hle
          · refine ⟨[c], ⟨Nat.le_refl 1, fun hle => ?_⟩, (h.spells c hlt).unescape⟩
            exact absurd hlt (UInt8.not_lt.2 hle)
          · obtain ⟨v, hv, hv'⟩ := h.longer rfl c hle
            exact ⟨v, ⟨Nat.le_of_lt hv, fun _ => hv⟩, hv'⟩
        choose f hf hunescape using hread
        exact unescape_flatMap_ne (fun c _ => hunescape c) (fun c _ => (hf c).1)
          ⟨c, hc, (hf c).2 (UInt8.not_lt.1 hle)⟩ hdecodes.2
  · rintro (rfl | hascii)
    · refine ⟨hs.flatMap h.ascii (h.keeps rfl), hback fun c hc => ?_⟩
      rcases UInt8.lt_or_le c 128 with hlt | hle
      · exact h.spells c hlt
      · rw [h.keeps rfl c hle]
        exact spells_self hle
    · refine ⟨IsAscii.isUtf8 fun c hc => ?_, hback fun c hc => h.spells c (hascii c hc)⟩
      obtain ⟨d, hd, hc⟩ := List.mem_flatMap.1 hc
      exact h.ascii d (hascii d hd) c hc

/-! ## The two functions -/

/-- The unit that spells a byte out is a character of two bytes. -/
theorem readLonger_unit {c : UInt8} (hc : 128 ≤ c) {a b d e : UInt8}
    (h : hexUnit a b d e = some c.toNat) : ReadLonger [backslash, 117, a, b, d, e] := by
  have hlt := c.toNat_lt
  refine ⟨_, ?_, unescape_unit h (by simp [isHighSurrogate]; omega)
    (by simp [isLowSurrogate]; omega)⟩
  revert hc
  exact forall_byte (p := fun c => 128 ≤ c →
    2 ≤ (String.utf8EncodeChar (Char.ofNat c.toNat)).length) (by decide +kernel) c

/-- What a byte is to the two functions. -/
theorem escapeWith_cases (c : UInt8) :
    (c < 128 → (∃ w ∈ namedEscape c, Spells w c ∧ IsAscii w) ∨ namedEscape c = none ∧
      ((c < 32 ∧ ∀ signed, charValue signed c < 32) ∨
        Spells [c] c ∧ ∀ signed, ¬ charValue signed c < 32)) ∧
    (128 ≤ c → namedEscape c = none ∧ charValue true c < 32 ∧ ¬ charValue false c < 32) := by
  exact forall_byte (p := fun c =>
    (c < 128 → (∃ w ∈ namedEscape c, Spells w c ∧ ∀ d ∈ w, d < 128) ∨ namedEscape c = none ∧
      ((c < 32 ∧ ∀ signed, charValue signed c < 32) ∨
        Spells [c] c ∧ ∀ signed, ¬ charValue signed c < 32)) ∧
    (128 ≤ c → namedEscape c = none ∧ charValue true c < 32 ∧ ¬ charValue false c < 32))
    (by decide +kernel) c

/-- It is enough to look at the bytes that are written in the program's own way. -/
theorem escapes_escapeWith (signed : Bool) {control : UInt8 → Bytes}
    (hlow : ∀ c, c < 32 → Spells (control c) c ∧ IsAscii (control c))
    (hhigh : ∀ c, signed = true → 128 ≤ c → ReadLonger (control c)) :
    Escapes (!signed) (escapeWith signed control) := by
  have hascii : ∀ c, c < 128 → Spells (escapeWith signed control c) c ∧
      IsAscii (escapeWith signed control c) := by
    intro c hc
    rw [escapeWith]
    rcases (escapeWith_cases c).1 hc with ⟨w, hw, hspells, hw'⟩ | ⟨hnone, ⟨hlt, hcontrol⟩ | hplain⟩
    · rw [Option.mem_def.1 hw]
      exact ⟨hspells, hw'⟩
    · rw [hnone, Option.getD_none, if_pos (hcontrol signed)]
      exact hlow c hlt
    · rw [hnone, Option.getD_none, if_neg (hplain.2 signed)]
      exact ⟨hplain.1, fun d hd => List.mem_singleton.1 hd ▸ hc⟩
  refine ⟨fun c hc => (hascii c hc).1, fun c hc => (hascii c hc).2, fun hsigned c hc => ?_,
    fun hsigned c hc => ?_⟩
  · obtain ⟨hnone, -, hnot⟩ := (escapeWith_cases c).2 hc
    obtain rfl : signed = false := by simpa using hsigned
    rw [escapeWith, hnone, Option.getD_none, if_neg hnot]
  · obtain ⟨hnone, hcontrol, -⟩ := (escapeWith_cases c).2 hc
    obtain rfl : signed = true := by simpa using hsigned
    rw [escapeWith, hnone, Option.getD_none, if_pos hcontrol]
    exact hhigh c rfl hc

theorem escapes_escapeByteOn (signed : Bool) : Escapes (!signed) (escapeByteOn signed) := by
  refine escapes_escapeWith signed (fun c => ?_) fun c _ hc => ?_
  · exact forall_byte (p := fun c => c < 32 → Spells (bytes "\\u" ++ hex4 c.toUInt32) c ∧
      ∀ d ∈ bytes "\\u" ++ hex4 c.toUInt32, d < 128) (by decide +kernel) c
  · obtain ⟨heq, hunit⟩ : bytes "\\u" ++ hex4 c.toUInt32 =
        [backslash, 117, 48, 48, hexDigit (c.toNat / 16), hexDigit (c.toNat % 16)] ∧
        hexUnit 48 48 (hexDigit (c.toNat / 16)) (hexDigit (c.toNat % 16)) = some c.toNat := by
      revert hc
      exact forall_byte (p := fun c => 128 ≤ c → bytes "\\u" ++ hex4 c.toUInt32 =
          [backslash, 117, 48, 48, hexDigit (c.toNat / 16), hexDigit (c.toNat % 16)] ∧
        hexUnit 48 48 (hexDigit (c.toNat / 16)) (hexDigit (c.toNat % 16)) = some c.toNat)
        (by decide +kernel) c
    rw [heq]
    exact readLonger_unit hc hunit

theorem unescape_plain {w : Bytes} (h : ∀ c ∈ w, Spells [c] c) (t : Bytes) :
    unescape (w ++ t) = (unescape t).map (w ++ ·) := by
  induction w with
  | nil => exact Option.map_id'.symm
  | cons c w ih =>
      have hc := (h c List.mem_cons_self).unescape (w ++ t)
      rw [List.singleton_append] at hc
      rw [List.cons_append, hc, ih fun d hd => h d (List.mem_cons_of_mem _ hd), Option.map_map]
      rfl

/-- An `int` below zero has eight digits, of which only four are read as the unit. -/
theorem readLonger_int {w : Bytes} (h : ∀ c ∈ w, Spells [c] c) :
    ReadLonger ([backslash, 117, 102, 102, 102, 102] ++ w) := by
  have hunit : hexUnit 102 102 102 102 = some 0xFFFF := by decide
  refine ⟨String.utf8EncodeChar (Char.ofNat 0xFFFF) ++ w, ?_, fun t => ?_⟩
  · rw [List.length_append]
    exact Nat.le_add_right_of_le (by decide)
  · rw [List.append_assoc, unescape_unit hunit (by decide) (by decide), unescape_plain h,
      Option.map_map]
    refine congrArg (Option.map · _) (funext fun s => ?_)
    rw [List.append_assoc]
    rfl

/-- An `int` below zero is written with all of its digits. -/
def intText (signed : Bool) (c : UInt8) : Bytes :=
  bytes "\\u" ++ hex4 (UInt32.ofInt (charValue signed c))

theorem escapes_escapeByte (signed : Bool) : Escapes (!signed) (GiteaAPI.escapeByte signed) := by
  refine escapes_escapeWith signed (fun c => ?_) fun c hsigned hc => ?_
  · exact forall_byte (p := fun c => c < 32 → Spells (intText signed c) c ∧
      ∀ d ∈ intText signed c, d < 128) (by revert signed; decide +kernel) c
  · subst hsigned
    obtain ⟨heq, hplain⟩ : intText true c = [backslash, 117, 102, 102, 102, 102] ++
        (intText true c).drop 6 ∧ ∀ d ∈ (intText true c).drop 6, Spells [d] d := by
      revert hc
      exact forall_byte (p := fun c => 128 ≤ c →
        intText true c = [backslash, 117, 102, 102, 102, 102] ++ (intText true c).drop 6 ∧
          ∀ d ∈ (intText true c).drop 6, Spells [d] d) (by decide +kernel) c
    have hlonger := readLonger_int hplain
    rwa [← heq] at hlonger

/-- A string is read back where a `char` has no sign, and else if it is ASCII. -/
theorem readBack_iff (signed : Bool) (s : Bytes) (hs : IsUtf8 s) :
    (DecodesTo (escapeJsonOn signed s) s ↔ signed = false ∨ IsAscii s) ∧
      (DecodesTo (GiteaAPI.escapeJsonImpl signed s) s ↔ signed = false ∨ IsAscii s) := by
  have hkept : (!signed) = true ↔ signed = false := by simp
  constructor
  · rw [escapeJsonOn, (escapes_escapeByteOn signed).decodesTo_iff hs, hkept]
  · rw [GiteaAPI.escapeJsonImpl, (escapes_escapeByte signed).decodesTo_iff hs, hkept]

/-- The letter é, where a `char` has a sign. -/
theorem accent_not_readBack : IsUtf8 [0xC3, 0xA9] ∧
    ¬ DecodesTo (escapeJsonOn true [0xC3, 0xA9]) [0xC3, 0xA9] ∧
    ¬ DecodesTo (GiteaAPI.escapeJsonImpl true [0xC3, 0xA9]) [0xC3, 0xA9] := by
  refine ⟨⟨[Char.ofNat 0xE9], by decide⟩, fun h => ?_, fun h => ?_⟩
  · exact absurd h.2 (by decide +kernel)
  · exact absurd h.2 (by decide +kernel)

theorem readBack_iff_accent : DecodesTo (escapeJsonOn false [0xC3, 0xA9]) [0xC3, 0xA9] ∧
    DecodesTo (GiteaAPI.escapeJsonImpl false [0xC3, 0xA9]) [0xC3, 0xA9] := by
  have h := readBack_iff false [0xC3, 0xA9] ⟨[Char.ofNat 0xE9], by decide⟩
  exact ⟨h.1.2 (.inl rfl), h.2.2 (.inl rfl)⟩

end Nazg.Git
